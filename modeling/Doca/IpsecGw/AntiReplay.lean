import Doca.IpsecGw.Context
import Doca.Lib.BitWindow

/-!
# Software anti-replay

Model of `anti_replay` (`flow_decrypt.c`) and `sw_handling_antireplay` (`ipsec_security_gw.c`),
with the machine arithmetic of the source: 32-bit sequence numbers and differences, a 64-bit
bitmap and shifts.

* `antiReplay` — one packet: drop to the left of the window, test and set inside it, slide to
  the right of it.
* `feed` — a sequence of packets, with the numbers accepted on the way.
* `subtractions`, `shiftCounts` — the operands of the 32-bit subtractions and the shift counts
  that one call evaluates.

Principal results: `antiReplay_cases`, `feed_refines` — a call and a run simulate the unbounded
`Lib.Acceptor` of width 64; `antiReplay_exact`.

The one place where a 32-bit operation wraps is `end_win_sn + 1 - window_size` once the window
ends at `UINT32_MAX`: the sum is 0 and the subtraction borrows (`begWinSn_wraps`).  The two wraps
cancel, so the value is still `end_win_sn - 63`.
-/

namespace Doca.IpsecGw

open Doca.Lib UInt32 List

/-! ## The functions of the source -/

/-- `beg_win_sn = *end_win_sn + 1 - window_size`, the first sequence number of the window. -/
def begWinSn (state : AntireplayState) : UInt32 := state.endWinSn + 1 - state.windowSize

def antiReplay (sn : UInt32) (state : AntireplayState) : AntireplayState × Bool :=
  if sn < begWinSn state then (state, true)
  else if sn ≤ state.endWinSn then
    let diff := sn - begWinSn state
    if state.bitmap &&& (1#64 <<< diff.toNat) ≠ 0 then (state, true)
    else ({ state with bitmap := state.bitmap ||| (1#64 <<< diff.toNat) }, false)
  else
    let diff := sn - state.endWinSn
    if diff ≥ state.windowSize then
      ({ state with
          bitmap := 1#64 <<< (state.windowSize - 1).toNat
          endWinSn := sn }, false)
    else
      ({ state with
          bitmap := (state.bitmap >>> diff.toNat) ||| (1#64 <<< (state.windowSize - 1).toNat)
          endWinSn := sn }, false)

def initialAntireplayState (cfg : Config) : AntireplayState where
  windowSize := UInt32.ofNat WINDOW_SIZE
  endWinSn := cfg.snInitial.toUInt32 + UInt32.ofNat WINDOW_SIZE - 1
  bitmap := 0

def swHandlingAntireplay (cfg : Config) (decryptRules : List DecryptRule)
    (decryptArraySize : Nat) : List DecryptRule :=
  (decryptRules.take decryptArraySize).map
    (fun rule => { rule with antireplayState := initialAntireplayState cfg }) ++
    decryptRules.drop decryptArraySize

def feed (state : AntireplayState) : List UInt32 → AntireplayState × List UInt32
  | [] => (state, [])
  | sn :: rest =>
    let r := antiReplay sn state
    let t := feed r.1 rest
    (t.1, if r.2 then t.2 else sn :: t.2)

def subtractions (sn : UInt32) (state : AntireplayState) : List (UInt32 × UInt32) :=
  (state.endWinSn + 1, state.windowSize) ::
    if sn < begWinSn state then []
    else if sn ≤ state.endWinSn then [(sn, begWinSn state)]
    else [(sn, state.endWinSn), (state.windowSize, 1)]

def shiftCounts (sn : UInt32) (state : AntireplayState) : List Nat :=
  if sn < begWinSn state then []
  else if sn ≤ state.endWinSn then [(sn - begWinSn state).toNat]
  else if sn - state.endWinSn ≥ state.windowSize then [(state.windowSize - 1).toNat]
  else [(sn - state.endWinSn).toNat, (state.windowSize - 1).toNat]

/-- `H` of a run: the maximum of the first window's end and every accepted number. -/
def highest (snInitial : Nat) (acc : List UInt32) : Nat :=
  acc.foldl (fun h sn => max h sn.toNat) (snInitial + 63)

/-! ## One call simulates the unbounded acceptor -/

structure Refines (s : AntireplayState) (a : Acceptor) : Prop where
  window : s.windowSize = 64
  high : s.endWinSn.toNat = a.high
  room : 63 ≤ a.high
  bounded : a.Bounded
  covers : Covers s.bitmap (a.high - 63) a.seen

variable {s : AntireplayState} {a : Acceptor}

theorem Refines.high_lt (h : Refines s a) : a.high < 4294967296 := by
  rw [← h.high]; exact s.endWinSn.toNat_lt

/-- The machine value of `beg_win_sn` is the integer `end_win_sn - 63`, whether or not the
    intermediate sum wraps. -/
theorem Refines.begWinSn_toNat (h : Refines s a) : (begWinSn s).toNat = a.high - 63 := by
  have hhigh := h.high
  have hroom := h.room
  have hlt := h.high_lt
  simp only [begWinSn, h.window, UInt32.toNat_sub, UInt32.toNat_add, UInt32.reduceToNat]
  omega

theorem Refines.lt_window (h : Refines s a) : ∀ n ∈ a.seen, n < a.high - 63 + 64 := by
  intro n hn
  have := h.bounded n hn
  have := h.room
  omega

/-- What one call does, by the position of `sn` relative to the window: it is dropped and the
    state stays as it is, or it is accepted and the new state stands for the acceptor that took
    it. -/
theorem antiReplay_cases (h : Refines s a) (sn : UInt32) :
    (¬ a.Accepts 64 sn.toNat ∧ antiReplay sn s = (s, true)) ∨
    (a.Accepts 64 sn.toNat ∧ (antiReplay sn s).2 = false ∧
      Refines (antiReplay sn s).1 (a.accept sn.toNat)) := by
  have hbeg := h.begWinSn_toNat
  have hhigh := h.high
  have hroom := h.room
  have hwin := h.window
  have hltw := h.lt_window
  unfold antiReplay
  split
  · -- left of the window
    rename_i hlt
    rw [lt_iff_toNat_lt, hbeg] at hlt
    exact .inl ⟨fun ha => by have := ha.2; omega, rfl⟩
  · rename_i hge
    rw [lt_iff_toNat_lt, hbeg] at hge
    split
    · -- inside the window: bit `sn - beg_win_sn`
      rename_i hle
      rw [le_iff_toNat_le, hhigh] at hle
      have hdiff : (sn - begWinSn s).toNat = sn.toNat - (a.high - 63) := by
        rw [UInt32.toNat_sub_of_le _ _ (by rw [UInt32.le_iff_toNat_le, hbeg]; omega), hbeg]
      have hd64 : sn.toNat - (a.high - 63) < 64 := by omega
      have hback : a.high - 63 + (sn.toNat - (a.high - 63)) = sn.toNat := by omega
      have htest := h.covers.test hd64
      rw [hback] at htest
      simp only [hdiff]
      split
      · rename_i hbit
        exact .inl ⟨fun ha => ha.1 (htest.1 hbit), rfl⟩
      rename_i hbit
      have hnew : sn.toNat ∉ a.seen := fun hm => hbit (htest.2 hm)
      have hmax : max a.high sn.toNat = a.high := Nat.max_eq_left hle
      have hcovers := h.covers.insert (d := sn.toNat - (a.high - 63))
      rw [hback] at hcovers
      have hbound := h.bounded.accept sn.toNat
      rw [Acceptor.accept, hmax] at hbound ⊢
      exact .inr ⟨⟨hnew, by omega⟩, rfl, hwin, hhigh, hroom, hbound, hcovers⟩
    · -- right of the window: slide so that `sn` is its last number
      rename_i hgt
      rw [le_iff_toNat_le, hhigh] at hgt
      have hdiff : (sn - s.endWinSn).toNat = sn.toNat - a.high := by
        rw [UInt32.toNat_sub_of_le _ _ (by rw [UInt32.le_iff_toNat_le, hhigh]; omega), hhigh]
      have hw1 : (s.windowSize - 1).toNat = 64 - 1 := by rw [hwin]; decide
      have hnew : sn.toNat ∉ a.seen := fun hm => by have := h.bounded _ hm; omega
      have hmax : max a.high sn.toNat = sn.toNat := Nat.max_eq_right (by omega)
      have hbase : a.high - 63 + (sn.toNat - a.high) = sn.toNat - 63 := by omega
      have hlast : sn.toNat - 63 + (64 - 1) = sn.toNat := by omega
      have hacc : a.Accepts 64 sn.toNat := ⟨hnew, by omega⟩
      have hroom' : 63 ≤ sn.toNat := by omega
      have hbound := h.bounded.accept sn.toNat
      rw [Acceptor.accept, hmax] at hbound ⊢
      simp only [hdiff, hw1]
      split
      · rename_i hfar
        rw [ge_iff_le, le_iff_toNat_le, hdiff, hwin] at hfar
        have hcovers := Covers.reset (w := 64) (d := sn.toNat - a.high) hltw hfar
        rw [hbase, hlast] at hcovers
        exact .inr ⟨hacc, rfl, hwin, rfl, hroom', hbound, hcovers⟩
      · have hcovers := h.covers.slide (d := sn.toNat - a.high) hltw
        rw [hbase, hlast] at hcovers
        exact .inr ⟨hacc, rfl, hwin, rfl, hroom', hbound, hcovers⟩

theorem antiReplay_accepts_iff (h : Refines s a) (sn : UInt32) :
    (antiReplay sn s).2 = false ↔ a.Accepts 64 sn.toNat := by
  rcases antiReplay_cases h sn with ⟨hno, hdrop⟩ | ⟨hyes, hkeep, -⟩
  · rw [hdrop]
    exact ⟨fun hf => (nomatch hf), fun ha => absurd ha hno⟩
  · exact ⟨fun _ => hyes, fun _ => hkeep⟩

/-! ## Runs -/

def initialAcceptor (snInitial : Nat) : Acceptor := ⟨snInitial + 63, ∅⟩

def acceptAll (a : Acceptor) (acc : List UInt32) : Acceptor :=
  acc.foldl (fun a sn => a.accept sn.toNat) a

theorem acceptAll_high (a : Acceptor) (acc : List UInt32) :
    (acceptAll a acc).high = acc.foldl (fun h sn => max h sn.toNat) a.high := by
  induction acc generalizing a with
  | nil => rfl
  | cons sn rest ih => exact ih (a.accept sn.toNat)

theorem mem_acceptAll_seen (a : Acceptor) (acc : List UInt32) (n : Nat) :
    n ∈ (acceptAll a acc).seen ↔ n ∈ a.seen ∨ ∃ sn ∈ acc, sn.toNat = n := by
  induction acc generalizing a with
  | nil => simp [acceptAll]
  | cons sn rest ih =>
    rw [show acceptAll a (sn :: rest) = acceptAll (a.accept sn.toNat) rest from rfl, ih]
    simp only [Acceptor.accept, Set.mem_insert_iff, mem_cons, exists_eq_or_imp]
    rw [eq_comm, or_assoc, or_left_comm]

/-- Every run simulates the acceptor that took exactly the accepted numbers, none of them known
    before and no two of them equal. -/
theorem feed_refines (h : Refines s a) (sns : List UInt32) :
    Refines (feed s sns).1 (acceptAll a (feed s sns).2) ∧
    (∀ sn ∈ (feed s sns).2, sn.toNat ∉ a.seen) ∧ (feed s sns).2.Nodup := by
  induction sns generalizing s a with
  | nil => exact ⟨h, by simp [feed], by simp [feed]⟩
  | cons sn rest ih =>
    rcases antiReplay_cases h sn with ⟨_, hdrop⟩ | ⟨hacc, hkeep, hnext⟩
    · simp only [feed, hdrop, if_true]
      exact ih h
    · obtain ⟨hr, hfresh, hnd⟩ := ih hnext
      simp only [feed, hkeep, Bool.false_eq_true, if_false]
      refine ⟨hr, ?_, ?_⟩
      · intro x hx
        rcases List.mem_cons.1 hx with rfl | hx
        · exact hacc.1
        · exact fun hm => hfresh x hx (.inr hm)
      · refine List.nodup_cons.2 ⟨fun hm => ?_, hnd⟩
        exact hfresh sn hm (.inl rfl)

theorem initialAntireplayState_refines {cfg : Config} (h : SnAdmitted cfg) :
    Refines (initialAntireplayState cfg) (initialAcceptor cfg.snInitial.toNat) := by
  unfold SnAdmitted WINDOW_SIZE UINT32_MAX at h
  refine ⟨rfl, ?_, by simp only [initialAcceptor]; omega, ?_, Covers.empty _⟩
  · have h64 : (ofNat WINDOW_SIZE).toNat = 64 := rfl
    simp only [initialAntireplayState, initialAcceptor, UInt32.toNat_sub, UInt32.toNat_add, h64,
      UInt64.toNat_toUInt32, UInt32.reduceToNat]
    omega
  · intro n hn
    exact absurd hn (Set.notMem_empty n)

theorem swHandlingAntireplay_state {cfg : Config} {rules : List DecryptRule} {rule : DecryptRule}
    (h : rule ∈ swHandlingAntireplay cfg rules rules.length) :
    rule.antireplayState = initialAntireplayState cfg := by
  simp only [swHandlingAntireplay, take_length, drop_length, append_nil, mem_map] at h
  obtain ⟨_, _, rfl⟩ := h
  rfl

/-! ## Ranges -/

theorem subtractions_tail_le (h : Refines s a) (sn : UInt32) :
    ∀ p ∈ (subtractions sn s).tail, p.2 ≤ p.1 := by
  intro p hp
  simp only [subtractions, tail_cons] at hp
  split at hp
  · cases hp
  rename_i hge
  split at hp
  · simp only [mem_singleton] at hp
    subst hp
    exact UInt32.not_lt.1 hge
  rename_i hgt
  simp only [mem_cons, not_mem_nil, or_false] at hp
  rcases hp with rfl | rfl
  · exact UInt32.le_of_lt (UInt32.not_le.1 hgt)
  · rw [h.window]; decide

theorem begWinSn_wraps (h : Refines s a) :
    s.windowSize ≤ s.endWinSn + 1 ↔ s.endWinSn.toNat ≠ UINT32_MAX := by
  have hroom := h.room
  have hlt := h.high_lt
  rw [h.window, UInt32.le_iff_toNat_le, UInt32.toNat_add, h.high, UINT32_MAX]
  simp only [reduceToNat]
  omega

theorem shiftCounts_lt (h : Refines s a) (sn : UInt32) : ∀ c ∈ shiftCounts sn s, c < 64 := by
  have hbeg := h.begWinSn_toNat
  have hhigh := h.high
  have hw1 : (s.windowSize - 1).toNat < 64 := by rw [h.window]; decide
  intro c hc
  unfold shiftCounts at hc
  split at hc
  · cases hc
  rename_i hge
  have hge' := UInt32.not_lt.1 hge
  split at hc
  · rename_i hle
    simp only [mem_singleton] at hc
    subst hc
    rw [UInt32.toNat_sub_of_le _ _ hge', hbeg]
    rw [le_iff_toNat_le] at hle
    omega
  · split at hc
    · simp only [mem_singleton] at hc
      exact hc ▸ hw1
    rename_i hnear
    simp only [mem_cons, not_mem_nil, or_false] at hc
    rcases hc with rfl | rfl
    · have := UInt32.lt_iff_toNat_lt.1 (UInt32.not_le.1 hnear)
      rw [h.window] at this
      exact this
    · exact hw1

/-! ## The reachable states -/

/-- **Anti-replay is exact over whole runs**: the next number is accepted exactly when it is new and not
    below the window; every subtraction but that for `beg_win_sn` and every shift count is in range. -/
theorem antiReplay_exact {json : Option JsonValue} {cfg : Config}
    (hcfg : parseSnInitial json Config.zero = (.success, cfg))
    {rules : List DecryptRule} {rule : DecryptRule}
    (hrule : rule ∈ swHandlingAntireplay cfg rules rules.length)
    (sns : List UInt32) (sn : UInt32) :
    let s := (feed rule.antireplayState sns).1
    let acc := (feed rule.antireplayState sns).2
    ((antiReplay sn s).2 = false ↔ sn ∉ acc ∧ highest cfg.snInitial.toNat acc - 63 ≤ sn.toNat) ∧
    ((antiReplay sn s).2 = true → (antiReplay sn s).1 = s) ∧
    acc.Nodup ∧
    s.endWinSn.toNat = highest cfg.snInitial.toNat acc ∧
    (begWinSn s).toNat = s.endWinSn.toNat - 63 ∧
    ((∀ p ∈ subtractions sn s, p.2 ≤ p.1) ↔ s.endWinSn.toNat ≠ UINT32_MAX) ∧
    (∀ p ∈ (subtractions sn s).tail, p.2 ≤ p.1) ∧
    (∀ c ∈ shiftCounts sn s, c < 64) := by
  intro s acc
  have hinit := initialAntireplayState_refines (parseSnInitial_admitted SnAdmitted.zero hcfg)
  rw [← swHandlingAntireplay_state hrule] at hinit
  obtain ⟨hr, -, hnd⟩ := feed_refines hinit sns
  have hhigh : (acceptAll (initialAcceptor cfg.snInitial.toNat) acc).high =
      highest cfg.snInitial.toNat acc := acceptAll_high _ _
  have hseen : sn.toNat ∈ (acceptAll (initialAcceptor cfg.snInitial.toNat) acc).seen ↔ sn ∈ acc := by
    rw [mem_acceptAll_seen]
    simp [initialAcceptor, UInt32.toNat_inj]
  have hend : s.endWinSn.toNat = highest cfg.snInitial.toNat acc := hr.high.trans hhigh
  have hacc : (acceptAll (initialAcceptor cfg.snInitial.toNat) acc).Accepts 64 sn.toNat ↔
      sn ∉ acc ∧ highest cfg.snInitial.toNat acc - 63 ≤ sn.toNat := by
    have hroom := hr.room
    rw [Acceptor.Accepts, hseen, hhigh]
    exact and_congr_right fun _ => by omega
  refine ⟨?_, ?_, hnd, hend, ?_, ?_, subtractions_tail_le hr sn, shiftCounts_lt hr sn⟩
  · exact (antiReplay_accepts_iff hr sn).trans hacc
  · intro hd
    rcases antiReplay_cases hr sn with ⟨-, hdrop⟩ | ⟨-, hkeep, -⟩
    · exact congrArg Prod.fst hdrop
    · exact absurd (hkeep.symm.trans hd) Bool.false_ne_true
  · rw [hr.begWinSn_toNat, hr.high]
  · rw [← begWinSn_wraps hr]
    constructor
    · exact fun hall => hall (s.endWinSn + 1, s.windowSize) mem_cons_self
    · intro hle p hp
      rcases List.mem_cons.1 hp with rfl | hp
      · exact hle
      · exact subtractions_tail_le hr sn p hp

theorem antiReplay_exact_five :
    (antiReplay 40 (feed (initialAntireplayState { Config.zero with snInitial := 5 })
      [5, 100, 5, 41]).1).2 = false :=
  (@antiReplay_exact (some (.int 5)) { Config.zero with snInitial := 5 } (by decide)
    [DecryptRule.zero] _ mem_cons_self [5, 100, 5, 41] 40).1.2 (by decide)

/-- After the number `UINT32_MAX` the subtraction for `beg_win_sn` is `0 - 64`. -/
theorem antiReplay_borrows : parseSnInitial none Config.zero = (.success, Config.zero) ∧
    (0, 64) ∈ subtractions 0 (feed (initialAntireplayState Config.zero) [4294967295]).1 ∧
    ¬ (64 : UInt32) ≤ 0 := by
  decide

end Doca.IpsecGw
