import RegionStore.Proofs.StoreRuns

/-!
A store is a finite map from handles to byte strings. The steps of such a map say nothing of
ranges, slots and generations, and every run of a store is a run of its map.
-/
namespace RegionStore

abbrev Contents := Handle → Option (List UInt8)

variable {α β : Type}

/-- Operations that may find no room for what they are to store. -/
def Store.Op.SeeksRoom : Op α → Prop
  | put _ _ _ => True
  | reserve _ _ _ => True
  | updateOrMove _ _ => True
  | _ => False

/-- The handle through which an operation looks at what is stored. -/
def Store.Op.reads : Op α → Option Handle
  | get k => some k
  | view k _ => some k
  | edit k _ => some k
  | info k => some k
  | _ => none

namespace Contents

/-- The payload of `k'` in place of the one of `k`, which may be the same handle. -/
def rebind (c : Contents) (k k' : Handle) (bytes : List UInt8) : Contents :=
  Function.update (Function.update c k none) k' (some bytes)

/-- Nothing but unbound. -/
def Thins (c c' : Contents) : Prop := ∀ k, c' k = c k ∨ c' k = none

/-- One operation, with its answer, on the map of a store with so many regions. -/
inductive Step (regions : Nat) (c : Contents) : Store.Op α → Answer α → Contents → Prop
  | put {bytes : List UInt8} {expiry : Expiry} {tag : UInt32} {k : Handle} (fresh : c k = none) :
    Step regions c (.put bytes expiry tag) (.handle k) (Function.update c k (some bytes))
  | reserve {size : Nat} {expiry : Expiry} {tag : UInt32} {k : Handle} {bytes : List UInt8}
    (fresh : c k = none) (length : bytes.length = size) :
    Step regions c (.reserve size expiry tag) (.handle k) (Function.update c k (some bytes))
  | update {k k' : Handle} {bytes : List UInt8} (bound : c k ≠ none)
    (fresh : k' = k ∨ c k' = none) :
    Step regions c (.update k bytes) (.handle k') (c.rebind k k' bytes)
  | updateOrMove {k k' : Handle} {bytes : List UInt8} (bound : c k ≠ none)
    (fresh : k' = k ∨ c k' = none) :
    Step regions c (.updateOrMove k bytes) (.handle k') (c.rebind k k' bytes)
  | noRoom {op : Store.Op α} (seeks : op.SeeksRoom) : Step regions c op .noRoom c
  | refused {op : Store.Op α} {refusal : StoreError} (seeks : op.SeeksRoom) :
    Step regions c op (.refused refusal) c
  | updateRefused {k : Handle} {bytes : List UInt8} {refusal : StoreError} :
    Step regions c (.update k bytes) (.refused refusal) c
  | get {k : Handle} {bytes : List UInt8} (bound : c k = some bytes) :
    Step regions c (.get k) (.bytes bytes) c
  | view {k : Handle} {bytes : List UInt8} (bound : c k = some bytes) (f : List UInt8 → α) :
    Step regions c (.view k f) (.shown (f bytes)) c
  | edit {k : Handle} {bytes : List UInt8} (bound : c k = some bytes) (patch : Patch α) :
    Step regions c (.edit k patch) (.shown (patch.run bytes).2)
      (Function.update c k (some (patch.run bytes).1))
  | info {k : Handle} {bytes : List UInt8} {x : Snapshot} (bound : c k = some bytes)
    (own : x.handle = k) (length : x.lease.len = bytes.length) :
    Step regions c (.info k) (.snapshot x) c
  | missing {op : Store.Op α} {k : Handle} (reads : op.reads = some k) (unbound : c k = none) :
    Step regions c op (.refused (Store.missing regions k)) c
  | release {k : Handle} {bytes : List UInt8} {n : Nat} (bound : c k = some bytes)
    (positive : 1 ≤ n) (covers : bytes.length ≤ n) :
    Step regions c (.release k) (.count n) (Function.update c k none)
  | releaseStale {k : Handle} (unbound : c k = none) (known : k.region < regions) :
    Step regions c (.release k) (.count 0) c
  | releaseUnknown {k : Handle} (unbound : c k = none) (unknown : regions ≤ k.region) :
    Step regions c (.release k) (.refused (.unknownRegion k.region)) c
  | collectExpired {n : Nat} {c' : Contents} (thins : c.Thins c') :
    Step regions c .collectExpired (.count n) c'
  | collectLeastUsed {n : Nat} {c' : Contents} (thins : c.Thins c') :
    Step regions c .collectLeastUsed (.count n) c'
  | clear : Step regions c .clear .done fun _ => none

/-- Step after step, each operation with its answer. -/
inductive Runs (regions : Nat) : Contents → List (Store.Op α × Answer α) → Contents → Prop
  | nil {c : Contents} : Runs regions c [] c
  | cons {c c₁ c₂ : Contents} {op : Store.Op α} {answer : Answer α}
    {rest : List (Store.Op α × Answer α)} (step : Step regions c op answer c₁)
    (run : Runs regions c₁ rest c₂) : Runs regions c ((op, answer) :: rest) c₂

end Contents

namespace Store

open Contents (Step Runs)

/-- The payload that each handle names. -/
def contents (s : Store) : Contents := fun k => (s.held k).map (·.2)

variable {s s' : Store} {k : Handle} {e : Entry} {bytes : List UInt8}

theorem contents_of_held (held : s.held k = some (e, bytes)) : s.contents k = some bytes := by
  rw [contents, held, Option.map_some]

theorem contents_eq_none_iff : s.contents k = none ↔ s.held k = none := by
  rw [contents, Option.map_eq_none_iff]

theorem contents_congr (held : s'.held = s.held) : s'.contents = s.contents := by
  funext k
  rw [contents, contents, held]

theorem contents_update {new : Option (Entry × List UInt8)}
    (held : s'.held = Function.update s.held k new) :
    s'.contents = Function.update s.contents k (new.map (·.2)) := by
  funext j
  rw [contents, held, Function.update_apply, Function.update_apply]
  split <;> rfl

/-- A new entry for the same payload does not show. -/
theorem contents_touch (held : s.held k = some (e, bytes)) {e' : Entry}
    (held' : s'.held = Function.update s.held k (some (e', bytes))) : s'.contents = s.contents := by
  rw [contents_update held', Option.map_some, ← contents_of_held held, Function.update_eq_self]

theorem Rebound.contents {k' : Handle} (h : Rebound s k bytes k' s') :
    s'.contents = s.contents.rebind k k' bytes := by
  obtain ⟨e, held⟩ := h.held
  funext j
  rw [Store.contents, held, Contents.rebind]
  simp only [Function.update_apply]
  split
  · rfl
  · split <;> rfl

theorem Thinned.contents (h : Thinned s s') : s.contents.Thins s'.contents := by
  intro k
  rw [contents_eq_none_iff]
  exact (h.held k).imp_left (congrArg (Option.map Prod.snd))

/-- What seeks room gets it as told by `P`, or leaves the map as it is. -/
theorem Attempt.step {P : Handle → Store → Prop} {o : Outcome Store (Option Handle)}
    (h : Attempt s P o) {op : Op α} (seeks : op.SeeksRoom)
    (placed : ∀ k s', P k s' → s.Keeps s' ∧
      Step s.regions.length s.contents op (.handle k) s'.contents) :
    s.Keeps o.2 ∧ Step s.regions.length s.contents op (.ofExcept .ofPlace o.1) o.2.contents := by
  cases h with
  | placed done => exact placed _ _ done
  | noRoom same =>
    refine ⟨same.keeps, ?_⟩
    rw [contents_congr same.held]
    exact .noRoom seeks
  | refused refusal same =>
    refine ⟨same.keeps, ?_⟩
    rw [contents_congr same.held]
    exact .refused seeks

/-- What only looks at a payload finds what is bound, and leaves the map as it is. -/
theorem Sound.step_view (h : s.Sound) (now : Int) (k : Handle) (f : List UInt8 → β)
    (shown : β → Answer α) {op : Op α} (reads : op.reads = some k)
    (step : ∀ bytes, s.contents k = some bytes →
      Step s.regions.length s.contents op (shown (f bytes)) s.contents) :
    s.Keeps (s.view now k f).2 ∧ Step s.regions.length s.contents op
      (.ofExcept shown (s.view now k f).1) (s.view now k f).2.contents := by
  rcases h.view now k f with ⟨e, bytes, s', held, hview, keeps, held'⟩ | ⟨held, hview⟩
  · rw [hview, contents_touch held held']
    exact ⟨keeps, step bytes (contents_of_held held)⟩
  · rw [hview]
    exact ⟨h.keeps, .missing reads (contents_eq_none_iff.2 held)⟩

theorem Sound.step_release (h : s.Sound) (k : Handle) :
    s.Keeps (s.release k).2 ∧ Step s.regions.length s.contents (.release k : Op α)
      (.ofExcept .count (s.release k).1) (s.release k).2.contents := by
  rcases h.release k with ⟨e, bytes, s', held, hrelease, keeps, held'⟩ | ⟨held, hrelease⟩
  · obtain ⟨hlength, positive, fits⟩ := h.lease held
    rw [hrelease, contents_update held']
    exact ⟨keeps, .release (contents_of_held held) (by omega) (by omega)⟩
  · have unbound := contents_eq_none_iff.2 held
    rw [hrelease]
    by_cases known : k.region < s.regions.length
    · rw [if_pos known]
      exact ⟨h.keeps, .releaseStale unbound known⟩
    · rw [if_neg known]
      exact ⟨h.keeps, .releaseUnknown unbound (Nat.le_of_not_lt known)⟩

/-- Every operation on a sound store is a step of its map. -/
theorem Sound.perform (h : s.Sound) (now : Int) (op : Op α) :
    s.Keeps (s.perform now op).2 ∧
      Step s.regions.length s.contents op (s.perform now op).1 (s.perform now op).2.contents := by
  cases op with
  | put bytes expiry tag =>
    refine (h.submit now ⟨.payload bytes, expiry, tag⟩).step trivial ?_
    rintro k s' ⟨keeps, fresh, e, _, held, rfl⟩
    refine ⟨keeps, ?_⟩
    rw [contents_update held]
    exact .put (contents_eq_none_iff.2 fresh)
  | reserve size expiry tag =>
    refine (h.submit now ⟨.reserved size, expiry, tag⟩).step trivial ?_
    rintro k s' ⟨keeps, fresh, e, bytes, held, length⟩
    refine ⟨keeps, ?_⟩
    rw [contents_update held]
    exact .reserve (contents_eq_none_iff.2 fresh) length
  | get k => exact h.step_view now k (fun payload => payload) .bytes rfl fun _ => .get
  | view k f => exact h.step_view now k f .shown rfl fun _ bound => .view bound f
  | edit k patch =>
    rcases h.edit k patch with ⟨e, bytes, s', held, hedit, keeps, held'⟩ | ⟨held, hedit⟩
    · have hperform : s.perform now (.edit k patch) = (.shown (patch.run bytes).2, s') := by
        rw [Store.perform, hedit]
        rfl
      rw [hperform, contents_update held']
      exact ⟨keeps, .edit (contents_of_held held) patch⟩
    · have hperform : s.perform now (.edit k patch) =
          (.refused (missing s.regions.length k), s) := by
        rw [Store.perform, hedit]
        rfl
      rw [hperform]
      exact ⟨h.keeps, .missing rfl (contents_eq_none_iff.2 held)⟩
  | update k bytes =>
    rcases h.update now k bytes with ⟨refusal, hupdate⟩ | ⟨k', s', hupdate, rebound⟩
    · have hperform : s.perform now (.update k bytes) = ((.refused refusal : Answer α), s) := by
        rw [Store.perform, hupdate]
        rfl
      rw [hperform]
      exact ⟨h.keeps, .updateRefused⟩
    · have hperform : s.perform now (.update k bytes) = ((.handle k' : Answer α), s') := by
        rw [Store.perform, hupdate]
        rfl
      rw [hperform, rebound.contents]
      exact ⟨rebound.keeps, .update (mt contents_eq_none_iff.1 rebound.good)
        (rebound.fresh.imp_right contents_eq_none_iff.2)⟩
  | updateOrMove k bytes =>
    refine (h.updateOrMove now k bytes).step trivial fun k' s' rebound => ⟨rebound.keeps, ?_⟩
    rw [rebound.contents]
    exact .updateOrMove (mt contents_eq_none_iff.1 rebound.good)
      (rebound.fresh.imp_right contents_eq_none_iff.2)
  | release k => exact h.step_release k
  | info k =>
    rcases h.info k with ⟨e, bytes, held, hinfo, generation⟩ | ⟨held, hinfo⟩
    · simp only [Store.perform, hinfo]
      refine ⟨h.keeps, .info (contents_of_held held) ?_ (h.lease held).1.symm⟩
      simp only [Entry.snapshot, generation]
    · simp only [Store.perform, hinfo]
      exact ⟨h.keeps, .missing rfl (contents_eq_none_iff.2 held)⟩
  | collectExpired =>
    obtain ⟨freed, s', hcollect, thinned⟩ := h.collectExpired now
    simp only [Store.perform, hcollect]
    exact ⟨thinned.keeps, .collectExpired thinned.contents⟩
  | collectLeastUsed =>
    obtain ⟨freed, s', hcollect, thinned⟩ := h.collectLeastUsed now
    simp only [Store.perform, hcollect]
    exact ⟨thinned.keeps, .collectLeastUsed thinned.contents⟩
  | clear =>
    obtain ⟨keeps, idle⟩ := h.clear
    have hperform : s.perform now .clear = ((.done : Answer α), s.clear) := rfl
    have hempty : s.clear.contents = fun _ => none := by
      funext k
      exact contents_eq_none_iff.2 (idle k)
    rw [hperform, hempty]
    exact ⟨keeps, .clear⟩

/-- What is bound is what is listed, so there is only so much of it. -/
theorem Sound.contents_ne_none_iff (h : s.Sound) :
    s.contents k ≠ none ↔ ∃ x ∈ s.live, x.handle = k := by
  rw [ne_eq, contents_eq_none_iff]
  constructor
  · intro bound
    cases found : s.regions[k.region]? with
    | none => exact absurd (held_of_getElem?_eq_none found) bound
    | some r =>
      rw [held_of_getElem? found] at bound
      obtain ⟨x, member, same⟩ := Region.live_iff_mem.1 (Region.live_iff_held.2 bound)
      exact ⟨x, List.mem_flatMap.2 ⟨r, List.mem_of_getElem? found, member⟩, same⟩
  · rintro ⟨x, member, rfl⟩
    obtain ⟨r, hr, hx⟩ := List.mem_flatMap.1 member
    obtain ⟨i, found⟩ := List.getElem?_of_mem hr
    have live : r.Live x.handle := Region.live_iff_mem.2 ⟨x, hx, rfl⟩
    have hhere : x.handle.region = i := live.own.trans (h i r found).2
    subst hhere
    rw [held_of_getElem? found]
    exact Region.live_iff_held.1 live

/-- Step by step, a run of a store is a run of its map. -/
theorem Sound.runs (h : s.Sound) (ops : List (Int × Op α)) :
    s.Keeps (s.after ops) ∧
      Runs s.regions.length s.contents (s.trace ops) (s.after ops).contents := by
  induction ops generalizing s with
  | nil => exact ⟨h.keeps, .nil⟩
  | cons head rest ih =>
    obtain ⟨now, op⟩ := head
    obtain ⟨keeps, step⟩ := h.perform now op
    obtain ⟨keeps', run⟩ := ih keeps.sound
    rw [keeps.length] at run
    exact ⟨keeps.trans keeps', .cons step run⟩

/-- A store, from the time it is built and whatever is asked of it, behaves like a finite map from
handles to byte strings: a payload is found under its handle until that is unbound, and access
through any other handle is refused. -/
theorem contents_refine {routing : Routing} {settings : Settings}
    (built : buildWith routing settings = .ok s) (ops : List (Int × Op α)) :
    Runs s.regions.length (fun _ => none) (s.trace ops) (s.after ops).contents ∧
      ∀ k, (s.after ops).contents k ≠ none ↔ ∃ x ∈ (s.after ops).live, x.handle = k := by
  obtain ⟨sound, idle⟩ := sound_buildWith built
  obtain ⟨keeps, run⟩ := sound.runs ops
  have hempty : s.contents = fun _ => none := by
    funext k
    exact contents_eq_none_iff.2 (idle k)
  rw [hempty] at run
  exact ⟨run, fun k => keeps.sound.contents_ne_none_iff⟩

/-- Two regions by first fit: a payload is updated, moved and released, and its first handle is
refused from the update on. By largest fit: reserved bytes are filled in place, looked at and swept
away when they have expired, and clearing takes the payload beside them. In a single slot: a payload
finds no room, a sweep takes the one that is there, and the next one grows in place. -/
theorem contents_refine_strategies :
    (∃ s ops, buildWith (.sequential 0)
        ⟨⟨2, 4, .firstFit, [], 1, false⟩, .default, .default, .default⟩ = .ok s ∧
      (s.trace ops).map (·.2) = ([.handle ⟨0, 1, 0⟩, .handle ⟨0, 2, 0⟩, .refused .staleHandle,
        .handle ⟨1, 0, 0⟩, .bytes [4, 5, 6, 7], .count 4] : List (Answer (List UInt8))) ∧
      Runs s.regions.length (fun _ => none) (s.trace ops) (s.after ops).contents) ∧
    (∃ s ops, buildWith (.sequential 0)
        ⟨⟨1, 8, .largestFit, [], 1, false⟩, .default, .default, .default⟩ = .ok s ∧
      (s.trace ops).map (·.2) = ([.handle ⟨0, 0, 0⟩, .shown [0, 0, 0], .shown [7],
        .handle ⟨0, 1, 0⟩, .snapshot ⟨⟨0, 1, 0⟩, 0, .ofSize 3 2, false, .issued 2 0 .never 3⟩,
        .count 3, .refused .staleHandle, .bytes [1, 2], .done, .refused .staleHandle,
        .refused (.unknownRegion 1)] : List (Answer (List UInt8))) ∧
      Runs s.regions.length (fun _ => none) (s.trace ops) (s.after ops).contents) ∧
    ∃ s ops, buildWith (.sequential 0)
        ⟨⟨1, 8, .slab, [8], 1, false⟩, .default, .default, .default⟩ = .ok s ∧
      (s.trace ops).map (·.2) = ([.handle ⟨0, 0, 0⟩, .shown [1], .noRoom, .count 8,
        .refused .staleHandle, .handle ⟨0, 0, 1⟩, .handle ⟨0, 0, 1⟩, .bytes [4, 4, 4, 4],
        .refused .staleHandle, .count 0] : List (Answer (List UInt8))) ∧
      Runs s.regions.length (fun _ => none) (s.trace ops) (s.after ops).contents := by
  let sevens : Patch (List UInt8) :=
    ⟨fun bytes => (bytes.map fun _ => 7, bytes), fun _ => List.length_map _⟩
  let firstFit : List (Int × Op (List UInt8)) := [(0, .put [1, 2] .never 0),
    (1, .update ⟨0, 1, 0⟩ [3]), (2, .get ⟨0, 1, 0⟩), (3, .updateOrMove ⟨0, 2, 0⟩ [4, 5, 6, 7]),
    (4, .get ⟨1, 0, 0⟩), (5, .release ⟨1, 0, 0⟩)]
  let largestFit : List (Int × Op (List UInt8)) := [(0, .reserve 3 (.inMillis 5) 9),
    (1, .edit ⟨0, 0, 0⟩ sevens), (2, .view ⟨0, 0, 0⟩ (·.take 1)), (3, .put [1, 2] .never 0),
    (4, .info ⟨0, 1, 0⟩), (9, .collectExpired), (10, .get ⟨0, 0, 0⟩), (11, .get ⟨0, 1, 0⟩),
    (12, .clear), (13, .get ⟨0, 1, 0⟩), (14, .edit ⟨1, 0, 0⟩ sevens)]
  let slab : List (Int × Op (List UInt8)) := [(0, .put [1] .never 0),
    (1, .view ⟨0, 0, 0⟩ fun bytes => bytes), (2, .put [3, 3, 3] .never 0), (3, .collectLeastUsed),
    (4, .get ⟨0, 0, 0⟩), (5, .put [2, 2] .never 0), (6, .update ⟨0, 0, 1⟩ [4, 4, 4, 4]),
    (7, .get ⟨0, 0, 1⟩), (8, .info ⟨0, 0, 0⟩), (9, .release ⟨0, 0, 0⟩)]
  have first : buildWith (.sequential 0)
      ⟨⟨2, 4, .firstFit, [], 1, false⟩, .default, .default, .default⟩ = .ok _ := rfl
  have largest : buildWith (.sequential 0)
      ⟨⟨1, 8, .largestFit, [], 1, false⟩, .default, .default, .default⟩ = .ok _ := rfl
  have slots : buildWith (.sequential 0)
      ⟨⟨1, 8, .slab, [8], 1, false⟩, .default, .default, .default⟩ = .ok _ := rfl
  refine ⟨⟨_, firstFit, first, ?_, (contents_refine first firstFit).1⟩,
    ⟨_, largestFit, largest, ?_, (contents_refine largest largestFit).1⟩,
    ⟨_, slab, slots, ?_, (contents_refine slots slab).1⟩⟩
  · decide
  · decide +kernel
  · decide +kernel

end Store

end RegionStore
