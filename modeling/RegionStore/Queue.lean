/-!
First-in, first-out queues. A queue is a list for taking from the front and a reversed list for
adding at the back; `toList` reads both in order.
-/
namespace RegionStore

structure Queue (α : Type) where
  front : List α
  back : List α
  deriving Repr

namespace Queue

def ofList (items : List α) : Queue α := ⟨items, []⟩

def toList (q : Queue α) : List α := q.front ++ q.back.reverse

def size (q : Queue α) : Nat := q.front.length + q.back.length

def push (q : Queue α) (item : α) : Queue α := { q with back := item :: q.back }

def pop? (q : Queue α) : Option (α × Queue α) :=
  match q.front with
  | item :: rest => some (item, { q with front := rest })
  | [] =>
    match q.back.reverse with
    | item :: rest => some (item, ⟨rest, []⟩)
    | [] => none

@[simp] theorem toList_ofList (items : List α) : (ofList items).toList = items := by
  simp [toList, ofList]

@[simp] theorem length_toList (q : Queue α) : q.toList.length = q.size := by
  simp [toList, size]

@[simp] theorem toList_push (q : Queue α) (item : α) :
    (q.push item).toList = q.toList ++ [item] := by
  simp [toList, push]

theorem pop?_eq_none_iff {q : Queue α} : q.pop? = none ↔ q.toList = [] := by
  unfold pop? toList
  split
  · next h => simp [h]
  · next h => split <;> simp_all

theorem toList_of_pop? {q rest : Queue α} {item : α} (h : q.pop? = some (item, rest)) :
    q.toList = item :: rest.toList := by
  unfold pop? at h
  split at h
  · next front =>
    obtain ⟨rfl, rfl⟩ := Prod.mk.inj (Option.some.inj h)
    simp [toList, front]
  · next front =>
    split at h
    · next back =>
      obtain ⟨rfl, rfl⟩ := Prod.mk.inj (Option.some.inj h)
      simp [toList, front, back]
    · contradiction

end Queue

end RegionStore
