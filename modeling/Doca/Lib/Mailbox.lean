import Mathlib.Data.Nat.Find
import Mathlib.Tactic.Common

/-!
# Tagged messages and ordered visits

Non-blocking messages between parties. A message has a source, a destination and a tag, and the
type of what it carries depends on the tag. The `k`-th message of a source, destination and tag is
matched with the `k`-th receive that the destination posts for them.

* `Mailbox.isend`, `Mailbox.irecv` — post a message or a receive; each answers the request to wait
  for.
* `Mailbox.sendDone`, `Mailbox.received` — whether a send is complete, and what a receive has got.
  A send is complete only once the receive that it is matched with is posted.
* `exists_mutual` — two of the waiting parties wait for each other.
-/

namespace Doca.Lib

open Function

structure Lane (P T : Type) where
  src : P
  dst : P
  tag : T
  deriving DecidableEq

structure Request (P T : Type) where
  lane : Lane P T
  number : Nat

/-- What has been sent and how many receives have been posted, lane by lane. -/
structure Mailbox (P : Type) {T : Type} (M : T → Type) where
  sent : (l : Lane P T) → List (M l.tag)
  posted : Lane P T → Nat

namespace Mailbox

variable {P T : Type} {M : T → Type}

def empty : Mailbox P M := ⟨fun _ => [], fun _ => 0⟩

variable [DecidableEq P] [DecidableEq T]

variable (m : Mailbox P M) (l : Lane P T)

def isend (x : M l.tag) : Mailbox P M × Request P T :=
  ({ m with sent := update m.sent l (m.sent l ++ [x]) }, ⟨l, (m.sent l).length⟩)

def irecv : Mailbox P M × Request P T :=
  ({ m with posted := update m.posted l (m.posted l + 1) }, ⟨l, m.posted l⟩)

def sendDone (q : Request P T) : Bool := decide (q.number < m.posted q.lane)

def received (q : Request P T) : Option (M l.tag) :=
  if q.lane = l ∧ q.number < m.posted l then (m.sent l)[q.number]? else none

variable {m : Mailbox P M} {l l' : Lane P T} {x : M l.tag}

@[simp] theorem isend_sent_self : (m.isend l x).1.sent l = m.sent l ++ [x] :=
  update_self ..

theorem isend_sent_of_ne (h : l' ≠ l) : (m.isend l x).1.sent l' = m.sent l' :=
  update_of_ne h ..

@[simp] theorem irecv_posted_self : (m.irecv l).1.posted l = m.posted l + 1 :=
  update_self ..

theorem irecv_posted_of_ne (h : l' ≠ l) : (m.irecv l).1.posted l' = m.posted l' :=
  update_of_ne h ..

theorem received_eq_some {k : Nat} (hk : k < m.posted l) (hx : (m.sent l)[k]? = some x) :
    m.received l ⟨l, k⟩ = some x := by
  rw [received, if_pos ⟨rfl, hk⟩, hx]

theorem of_received {q : Request P T} (h : m.received l q = some x) : (m.sent l)[q.number]? = some x := by
  unfold received at h
  split at h
  · exact h
  · cases h

end Mailbox

/-! ## Parties that visit each other in one order -/

/-- Every waiting party `r` is visiting a party that waits as well and has not yet come further
than `r` in its own visits. Then two parties are visiting each other. -/
theorem exists_mutual (waiting : Nat → Prop) (visits : Nat → Nat) (hex : ∃ r, waiting r)
    (hwait : ∀ r, waiting r → waiting (visits r) ∧ visits (visits r) ≤ r) :
    ∃ r, waiting r ∧ waiting (visits r) ∧ visits (visits r) = r := by
  -- `m` is the least party that some waiting party visits, and `r` visits it
  have hvisited : ∃ m, ∃ r, waiting r ∧ visits r = m := hex.elim fun r hr => ⟨_, r, hr, rfl⟩
  classical
  obtain ⟨r, hr, hm⟩ := Nat.find_spec hvisited
  have hmin : ∀ q, waiting q → visits r ≤ visits q := by
    intro q hq
    rw [hm]
    exact Nat.find_min' hvisited ⟨q, hq, rfl⟩
  -- the visited party is itself visiting a party that can only be visiting it
  obtain ⟨hwm, -⟩ := hwait r hr
  obtain ⟨hwj, hback⟩ := hwait (visits r) hwm
  exact ⟨visits r, hwm, hwj, Nat.le_antisymm hback (hmin _ hwj)⟩

end Doca.Lib
