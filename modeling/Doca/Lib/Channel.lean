import Mathlib.Tactic.Common

/-!
# Reliable channels

A channel from one sender to one receiver that neither loses nor reorders messages: everything that
has been sent, in order, and how much of it has been taken.

* `Channel.send`, `Channel.next?`, `Channel.take` — the operations.
* `Channel.Follows` — the messages keep to a script, which says for every position what a message
  there means; `Follows.send`, `Follows.next`, `Follows.mono`.
* `Channel.AllGood`, `Channel.EndsBad` — no message is of a kind that ends the conversation, or only
  the last one is.
-/

namespace Doca.Lib

variable {M : Type}

structure Channel (M : Type) where
  sent : List M
  taken : Nat

namespace Channel

variable {c : Channel M} {m : M}

def empty : Channel M := ⟨[], 0⟩

def send (c : Channel M) (m : M) : Channel M := { c with sent := c.sent ++ [m] }

def next? (c : Channel M) : Option M := c.sent[c.taken]?

def take (c : Channel M) : Channel M := { c with taken := c.taken + 1 }

@[simp] theorem send_length (c : Channel M) (m : M) :
    (c.send m).sent.length = c.sent.length + 1 := List.length_append

theorem sent_send {k : Nat} {x : M} (h : (c.send m).sent[k]? = some x) :
    c.sent[k]? = some x ∨ (k = c.sent.length ∧ x = m) := by
  rcases Nat.lt_or_ge k c.sent.length with hk | hk
  · exact Or.inl (by rwa [send, List.getElem?_append_left hk] at h)
  · rw [send, List.getElem?_append_right hk] at h
    obtain ⟨hlt, hx⟩ := List.getElem?_eq_some_iff.mp h
    have hzero : k - c.sent.length = 0 := by simpa using hlt
    refine Or.inr ⟨by omega, ?_⟩
    rw [← hx]
    simp [hzero]

theorem taken_lt (h : c.next? = some m) : c.taken < c.sent.length :=
  (List.getElem?_eq_some_iff.mp h).1

/-! ## Scripts -/

def Follows (script : Nat → M → Prop) (c : Channel M) : Prop :=
  ∀ k m, c.sent[k]? = some m → script k m

variable {script script' : Nat → M → Prop}

theorem Follows.empty : (Channel.empty : Channel M).Follows script := by
  intro k m h
  cases h

theorem Follows.send (h : c.Follows script) (hm : script c.sent.length m) : (c.send m).Follows script := by
  intro k x hx
  rcases sent_send hx with hx | ⟨rfl, rfl⟩
  · exact h k x hx
  · exact hm

theorem Follows.next (h : c.Follows script) (hm : c.next? = some m) : script c.taken m := h _ _ hm

theorem Follows.mono (h : c.Follows script)
    (hmono : ∀ k m, k < c.sent.length → script k m → script' k m) : c.Follows script' :=
  fun k m hm => hmono k m (List.getElem?_eq_some_iff.mp hm).1 (h k m hm)

/-! ## Conversations that end with a bad message -/

def AllGood (bad : M → Prop) (c : Channel M) : Prop := ∀ m ∈ c.sent, ¬ bad m

def EndsBad (bad : M → Prop) (c : Channel M) : Prop :=
  ∃ pre m, c.sent = pre ++ [m] ∧ bad m ∧ ∀ x ∈ pre, ¬ bad x

variable {bad : M → Prop}

theorem AllGood.send (h : c.AllGood bad) (hm : ¬ bad m) : (c.send m).AllGood bad := by
  intro x hx
  rcases List.mem_append.mp hx with hx | hx
  · exact h x hx
  · rw [List.mem_singleton.mp hx]
    exact hm

theorem AllGood.send_bad (h : c.AllGood bad) (hm : bad m) : (c.send m).EndsBad bad :=
  ⟨c.sent, m, rfl, hm, h⟩

/-- A receiver that has seen no bad message has not come to the end of a conversation that ends with
    one. -/
theorem EndsBad.pending (h : c.EndsBad bad) (hlt : c.taken ≤ c.sent.length)
    (hsaw : ∀ k < c.taken, ∀ m, c.sent[k]? = some m → ¬ bad m) : c.taken < c.sent.length := by
  obtain ⟨pre, m, hsent, hm, _⟩ := h
  rcases Nat.lt_or_ge c.taken c.sent.length with hlt' | hge
  · exact hlt'
  · have hlast : c.sent[pre.length]? = some m := by simp [hsent]
    have hlen : c.sent.length = pre.length + 1 := by simp [hsent]
    exact absurd hm (hsaw _ (by omega) m hlast)

end Channel

end Doca.Lib
