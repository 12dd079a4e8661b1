import Mathlib.Data.List.Forall2
import TaskTimer.Notice.Bus
import TaskTimer.Proofs.Lists

/-!
# What a subscriber finds

A subscriber has a place in the sequence of all notices. What it finds depends on that place and on
the notices behind it, and nobody else moves the place.

* `Bus.unread`: the notices behind a place.
* `Bus.received_eq`: how many of them are missed, and which are found.
* `Bus.next?`, `Bus.readings`: reading one notice after the other.
* **`Bus.readings_eq`**: reading so finds at most one gap, and finds it first.
* `Bus.lookup_subscribe_of_ne`, `Bus.lookup_drop_of_ne`, `Bus.lookup_drain_of_ne`: others do not
  move the place.
* `Covers`, `Bus.covers_received`: every notice behind the place is found or counted as missed.
-/

namespace TaskTimer

/-- What one reading finds: a number of notices that are gone, or the next notice. -/
inductive Item where
  | lagged (missed : Nat)
  | notice (n : Notice)
  deriving DecidableEq, Repr

namespace Received

/-- What is found, item by item: the gap comes first, if there is one. -/
def items (r : Received) : List Item :=
  (if r.missed = 0 then [] else [.lagged r.missed]) ++ r.notices.map .notice

/-- What is found, with an unknown notice for each one that is missed. -/
def known (r : Received) : List (Option Notice) :=
  List.replicate r.missed none ++ r.notices.map some

end Received

namespace Bus

variable (b : Bus)

/-- The notices behind a place. -/
def unread (read : Nat) : List Notice := b.sent.toList.drop read

theorem length_unread (read : Nat) : (b.unread read).length = b.sent.size - read := by
  rw [unread, List.length_drop, Array.length_toList]

/-- **Of the notices behind a place, the latest are found and the others missed.** -/
theorem received_eq (read : Nat) :
    b.received read =
      { missed := (b.unread read).length - b.capacity
        notices := (b.unread read).drop ((b.unread read).length - b.capacity) } := by
  have hlength := b.length_unread read
  rw [received, hlength, unread, List.drop_drop, Array.toList_extract,
    List.extract_eq_take_drop]
  congr 1
  exact List.take_of_length_le (by simp)

/-! ## One reading after the other -/

/-- The next reading at a place, and the place after it. The notices that are no longer kept are
passed over at once. -/
def next? (read : Nat) : Option (Item × Nat) :=
  if read + b.capacity < b.sent.size then
    some (.lagged (b.sent.size - read - b.capacity), b.sent.size - b.capacity)
  else b.sent[read]?.map fun n => (.notice n, read + 1)

theorem next?_lt {read later : Nat} {item : Item} (h : b.next? read = some (item, later)) :
    b.sent.size - later < b.sent.size - read := by
  unfold next? at h
  split at h
  · cases h
    omega
  · obtain ⟨n, hn, h⟩ := Option.map_eq_some_iff.1 h
    obtain ⟨hread, -⟩ := Array.getElem?_eq_some_iff.1 hn
    cases h
    omega

/-- All readings from a place on, until there is nothing left to read. -/
def readings (read : Nat) : List Item :=
  match h : b.next? read with
  | none => []
  | some (item, later) =>
    have := b.next?_lt h
    item :: readings later
termination_by b.sent.size - read

theorem readings_none {read : Nat} (h : b.next? read = none) : b.readings read = [] := by
  unfold readings
  split
  · rfl
  · next h' => rw [h] at h'; cases h'

theorem readings_some {read later : Nat} {item : Item}
    (h : b.next? read = some (item, later)) : b.readings read = item :: b.readings later := by
  conv => lhs; unfold readings
  split
  · next h' => rw [h] at h'; cases h'
  · next h' => rw [h] at h'; cases h'; rfl

theorem readings_kept {read : Nat} (kept : b.sent.size ≤ read + b.capacity) :
    b.readings read = (b.unread read).map .notice := by
  have hnext : b.next? read = b.sent[read]?.map fun n => (.notice n, read + 1) :=
    if_neg (Nat.not_lt.2 kept)
  cases hn : b.sent[read]? with
  | none =>
    have hend : b.unread read = [] := by
      rw [unread, List.drop_eq_nil_iff, Array.length_toList]
      exact Array.getElem?_eq_none_iff.1 hn
    rw [b.readings_none (by rw [hnext, hn]; rfl), hend]
    rfl
  | some n =>
    obtain ⟨hread, hget⟩ := Array.getElem?_eq_some_iff.1 hn
    have hcons : b.unread read = n :: b.unread (read + 1) := by
      rw [unread, List.drop_eq_getElem_cons (by simpa using hread), Array.getElem_toList, hget]
      rfl
    have hlater : b.sent.size ≤ read + 1 + b.capacity := by omega
    rw [b.readings_some (by rw [hnext, hn]; rfl), readings_kept hlater, hcons, List.map_cons]
termination_by b.sent.size - read

/-- **Reading one notice after the other finds at most one gap, and finds it first.** -/
theorem readings_eq (read : Nat) : b.readings read = (b.received read).items := by
  have hlength := b.length_unread read
  rw [received_eq, Received.items]
  by_cases late : read + b.capacity < b.sent.size
  · -- the gap comes first, and then the oldest notice that is kept
    have hnext : b.next? read =
        some (.lagged (b.sent.size - read - b.capacity), b.sent.size - b.capacity) := if_pos late
    have hmissed : (b.unread read).length - b.capacity ≠ 0 := by omega
    have hplace : read + ((b.unread read).length - b.capacity) = b.sent.size - b.capacity := by
      omega
    rw [b.readings_some hnext, b.readings_kept (by omega), if_neg hmissed, hlength]
    rw [hlength] at hplace
    rw [unread, unread, List.drop_drop, hplace]
    rfl
  · have hmissed : (b.unread read).length - b.capacity = 0 := by omega
    rw [b.readings_kept (Nat.le_of_not_lt late), if_pos hmissed, hmissed]
    rfl

/-! ## What was sent -/

@[simp] theorem capacity_sendAll (ns : List Notice) : (b.sendAll ns).capacity = b.capacity := by
  induction ns generalizing b with
  | nil => rfl
  | cons n ns ih => exact ih (b.send n)

@[simp] theorem subscribers_sendAll (ns : List Notice) :
    (b.sendAll ns).subscribers = b.subscribers := by
  induction ns generalizing b with
  | nil => rfl
  | cons n ns ih => exact ih (b.send n)

@[simp] theorem sent_sendAll (ns : List Notice) :
    (b.sendAll ns).sent.toList = b.sent.toList ++ ns := by
  induction ns generalizing b with
  | nil => exact (List.append_nil _).symm
  | cons n ns ih =>
    refine (ih (b.send n)).trans ?_
    rw [send, Array.toList_push, List.append_assoc, List.singleton_append]

theorem unread_sendAll {read : Nat} (hread : read ≤ b.sent.size) (ns : List Notice) :
    (b.sendAll ns).unread read = b.unread read ++ ns := by
  rw [unread, sent_sendAll, List.drop_append_of_le_length (by rwa [Array.length_toList])]
  rfl

theorem unread_size : b.unread b.sent.size = [] := by
  rw [unread, ← Array.length_toList, List.drop_length]

/-! ## The places of the subscribers -/

section Place

variable {name other : String} (hne : other ≠ name)

include hne

theorem lookup_drop_of_ne : (b.drop other).subscribers.lookup name = b.subscribers.lookup name :=
  lookup_removed_of_ne b.subscribers hne.symm

theorem lookup_subscribe_of_ne :
    (b.subscribe other).subscribers.lookup name = b.subscribers.lookup name := by
  rw [subscribe, lookup_replaced, if_neg hne.symm]

theorem lookup_drain_of_ne :
    (b.drain other).2.subscribers.lookup name = b.subscribers.lookup name := by
  unfold drain
  split
  · rfl
  · exact b.lookup_subscribe_of_ne hne

end Place

theorem lookup_subscribe (name : String) :
    (b.subscribe name).subscribers.lookup name = some b.sent.size := by
  rw [subscribe, lookup_replaced, if_pos rfl]

theorem lookup_drop (name : String) : (b.drop name).subscribers.lookup name = none :=
  lookup_removed b.subscribers name

variable {b}

theorem drain_none {name : String} (h : b.subscribers.lookup name = none) :
    b.drain name = (none, b) := by
  rw [drain, h]

theorem drain_eq {name : String} {read : Nat} (h : b.subscribers.lookup name = some read) :
    b.drain name = (some (b.received read), b.subscribe name) := by
  rw [drain, h]

theorem drain_sent (name : String) :
    (b.drain name).2.sent = b.sent ∧ (b.drain name).2.capacity = b.capacity := by
  unfold drain
  split <;> exact ⟨rfl, rfl⟩

end Bus

/-! ## What is known of the notices -/

/-- The list has a place for each notice, in order, and the notices that it knows are the right
ones. -/
def Covers (ns : List Notice) (known : List (Option Notice)) : Prop :=
  List.Forall₂ (fun n k => ∀ m ∈ k, m = n) ns known

theorem Covers.append {ns ms : List Notice} {known later : List (Option Notice)}
    (h : Covers ns known) (h' : Covers ms later) : Covers (ns ++ ms) (known ++ later) :=
  List.rel_append h h'

theorem covers_unknown (ns : List Notice) : Covers ns (List.replicate ns.length none) := by
  induction ns with
  | nil => exact .nil
  | cons n ns ih => exact .cons (fun _ hm => nomatch hm) ih

theorem covers_known (ns : List Notice) : Covers ns (ns.map some) := by
  induction ns with
  | nil => exact .nil
  | cons n ns ih => exact .cons (fun _ hm => (Option.mem_some_iff.1 hm).symm) ih

/-- **What is found has a place for every notice that was to be read.** -/
theorem Bus.covers_received (b : Bus) (read : Nat) :
    Covers (b.unread read) (b.received read).known := by
  rw [received_eq, Received.known]
  generalize hk : (b.unread read).length - b.capacity = k
  have htake : ((b.unread read).take k).length = k := List.length_take_of_le (by omega)
  have hcovers := (covers_unknown ((b.unread read).take k)).append
    (covers_known ((b.unread read).drop k))
  rwa [htake, List.take_append_drop] at hcovers

end TaskTimer
