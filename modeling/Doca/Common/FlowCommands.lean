import Doca.Common.Addresses

/-!
# Commands of the flow parser

The parsers of `common/flow_parser.c` for lists in a command.

Principal results: `queues_stored`, where the cursor goes on by two characters for each number, and
`struct_parsed_iff`.
-/

namespace Doca.Common

/-! ## RSS queues -/

/-- `parse_rss_queues` after the allocation, with `n` numbers in front of the last one to come. -/
def parseRssQueues : Nat → List UInt8 → List UInt16
  | 0, str => [UInt16.ofInt (strtol str 0).1]
  | n + 1, str => UInt16.ofInt (strtol str 0).1 :: parseRssQueues n (str.drop 2)

def queuesText (sep : UInt8) (queues : List UInt16) : List UInt8 :=
  [sep].intercalate (queues.map fun q => decimal q.toNat)

def EndsNumber (rest : List UInt8) : Prop :=
  ∀ c ∈ rest.head?, isDigit c = false ∧ c ≠ 0x78 ∧ c ≠ 0x58

theorem ten_le_digitOf {c : UInt8} (h : isDigit c = false) : 10 ≤ digitOf c := by
  simp only [digitOf, h, Bool.false_eq_true, if_false, Bool.and_eq_true, decide_eq_true_eq,
    UInt8.le_iff_toNat_le, UInt8.reduceToNat]
  split_ifs <;> omega

section Number

variable {n : Nat} {text rest : List UInt8}

theorem EndsNumber.takeWhile (h : EndsNumber rest) {radix : Nat} (hradix : radix ≤ 10) :
    rest.takeWhile (fun c => digitOf c < radix) = [] := by
  cases rest with
  | nil => rfl
  | cons c rest =>
    have hc := ten_le_digitOf (h c rfl).1
    exact List.takeWhile_cons_of_neg (by simp; omega)

theorem subject_zero_of_head (h : text.head? ≠ some 0x30) : subject 0 text = (10, text) := by
  unfold subject
  split
  · exact absurd rfl h
  · exact absurd rfl h
  · rfl

theorem subject_zero_of_zero (h : EndsNumber rest) : subject 0 (0x30 :: rest) = (8, 0x30 :: rest) := by
  rcases rest with _ | ⟨x, _ | ⟨c, rest⟩⟩
  · rfl
  · rfl
  · obtain ⟨-, hx, hX⟩ := h x rfl
    simp [subject, hx, hX]

theorem foldl_digitOf (h : ∀ c ∈ text, isDigit c = true) (acc : Nat) :
    text.foldl (fun (v : Int) c => v * (10 : Nat) + digitOf c) acc = digitsValue text acc := by
  induction text generalizing acc with
  | nil => rfl
  | cons c text ih =>
    obtain ⟨hc, htext⟩ := List.forall_mem_cons.1 h
    have hdigit : digitOf c = c.toNat - 48 := if_pos hc
    have hacc : (acc : Int) * (10 : Nat) + digitOf c = (acc * 10 + (c.toNat - 48) : Nat) := by
      rw [hdigit]
      push_cast
      rfl
    rw [List.foldl_cons, hacc, ih htext, digitsValue, if_pos hc]

theorem strtol_zero {read : List UInt8} {radix : Nat}
    (hsign : splitSign (text.dropWhile isSpace) = (false, text)) (hsubject : subject 0 text = (radix, text))
    (hread : text.takeWhile (fun c => digitOf c < radix) = read) (hne : read ≠ []) :
    (strtol text 0).1 = max (-9223372036854775808)
      (min 9223372036854775807 (read.foldl (fun (v : Int) c => v * radix + digitOf c) 0)) := by
  rw [strtol, if_neg (by decide), hsign]
  dsimp only
  rw [hsubject]
  dsimp only
  rw [hread, if_neg hne]
  rfl

theorem strtol_decimal (hn : n < 9223372036854775808) (h : EndsNumber rest) :
    (strtol (decimal n ++ rest) 0).1 = n := by
  have hdigits := isDigit_decimal n
  have hsign := @splitSign_digits (decimal n) rest (decimal_ne_nil n) hdigits
  by_cases hzero : n = 0
  · subst hzero
    have hread : ([0x30] ++ rest).takeWhile (fun c => digitOf c < 8) = [0x30] := by
      rw [List.takeWhile_append_of_pos (by simp [digitOf, isDigit]), h.takeWhile (by decide),
        List.append_nil]
    exact strtol_zero hsign (subject_zero_of_zero h) hread (List.cons_ne_nil _ _)
  · have hhead : (decimal n ++ rest).head? ≠ some 0x30 := by
      rw [List.head?_append_of_ne_nil _ (decimal_ne_nil n)]
      exact decimal_head hzero
    have hread : (decimal n ++ rest).takeWhile (fun c => digitOf c < 10) = decimal n := by
      rw [List.takeWhile_append_of_pos, h.takeWhile (le_refl 10), List.append_nil]
      intro c hc
      have hle : c.toNat ≤ 57 := by
        have hc := hdigits c hc
        simp only [isDigit, Bool.and_eq_true, decide_eq_true_eq] at hc
        exact hc.2
      rw [digitOf, if_pos (hdigits c hc)]
      simp
      omega
    have hvalue := foldl_digitOf hdigits 0
    rw [digitsValue_decimal] at hvalue
    rw [strtol_zero hsign (subject_zero_of_head hhead) hread (decimal_ne_nil n)]
    refine (congrArg (fun v => max _ (min _ v)) hvalue).trans ?_
    omega

end Number

def MAX_CMDLINE_INPUT_LEN : Nat := 512

def MAX_FIELD_INPUT_LEN : Nat := 128

def strlcpy (src : List UInt8) (size : Nat) : List UInt8 := src.take (size - 1)

def strtok (str : List UInt8) (delim : UInt8) : Option (List UInt8) :=
  match str.dropWhile (· = delim) with
  | [] => none
  | c :: str => some (c :: str.takeWhile (· ≠ delim))

def fieldToken (str : List UInt8) (delim : UInt8) : Option (List UInt8) :=
  (strtok (strlcpy str MAX_CMDLINE_INPUT_LEN) delim).map (strlcpy · MAX_FIELD_INPUT_LEN)

/-- A cursor moved by `n` characters; `none` if it is behind the NUL. -/
def advance (str : List UInt8) (n : Nat) : Option (List UInt8) :=
  if n ≤ str.length then some (str.drop n) else none

section Struct

variable {σ : Type} (fill : List UInt8 → List UInt8 → σ → DocaError × σ) {str t rest : List UInt8} {d : UInt8}
  {p : List UInt8 × List UInt8} (st : σ)

/-- One iteration of `parse_struct`: its result, or the cursor for the next one; `none` if a cursor
    behind the NUL is dereferenced. -/
def parseField (str : List UInt8) (st : σ) : Option ((DocaError × σ) ⊕ (List UInt8 × σ)) := do
  let some fieldName := fieldToken str 0x3d | some (.inl (.invalidValue, st))
  let str ← advance str (fieldName.length + 1)
  let some value := fieldToken str 0x2c | some (.inl (.invalidValue, st))
  let str ← advance str value.length
  match fill fieldName value st with
  | (.success, st) =>
    some (if str.head? = some 0x2c then .inr (str.tail, st) else .inl (.success, st))
  | r => some (.inl r)

theorem fieldToken_spec (h : fieldToken str d = some t) :
    t.Sublist str ∧ t ≠ [] ∧ d ∉ t ∧ t.length < 128 := by
  simp only [fieldToken, strtok, strlcpy, MAX_FIELD_INPUT_LEN, Option.map_eq_some_iff] at h
  obtain ⟨u, hu, rfl⟩ := h
  split at hu
  · cases hu
  · rename_i c rest hs
    cases hu
    have hc : c ≠ d := by
      have hhead := List.head_dropWhile_not (· = d) (hs ▸ List.cons_ne_nil c rest)
      simpa only [hs, List.head_cons, decide_eq_false_iff_not] using hhead
    refine ⟨?_, by simp, fun hd => ?_, by simp; omega⟩
    · have hrest : (c :: rest).Sublist str :=
        hs ▸ (List.dropWhile_sublist _).trans (List.take_sublist ..)
      exact ((List.take_sublist ..).trans ((List.takeWhile_sublist _).cons_cons c)).trans hrest
    · obtain rfl | hd := List.mem_cons.mp (List.mem_of_mem_take hd)
      · exact hc rfl
      · simpa using List.mem_takeWhile_imp hd

theorem fieldToken_append (hne : t ≠ []) (hlt : t.length < 128)
    (hd : d ∉ t) (hrest : ∀ c ∈ rest.head?, c = d) : fieldToken (t ++ rest) d = some t := by
  obtain ⟨c, t, rfl⟩ := List.exists_cons_of_ne_nil hne
  obtain ⟨hc, hd⟩ := not_or.mp (List.mem_cons.not.mp hd)
  rw [List.length_cons] at hlt
  have hstop : (rest.take (510 - t.length)).takeWhile (· ≠ d) = [] := by
    cases rest with
    | nil => simp
    | cons e rest =>
      rw [show 510 - t.length = 509 - t.length + 1 by omega, hrest e rfl]
      simp
  have hall : ∀ e ∈ t, decide (e ≠ d) = true := fun e he => decide_eq_true fun h => hd (h ▸ he)
  simp only [fieldToken, strtok, strlcpy, MAX_CMDLINE_INPUT_LEN, MAX_FIELD_INPUT_LEN]
  rw [List.cons_append, show 512 - 1 = 510 + 1 from rfl, List.take_succ_cons,
    List.dropWhile_cons_of_neg (by simpa using Ne.symm hc), List.take_append,
    List.take_of_length_le (by omega)]
  simp only [Option.map_some]
  rw [List.takeWhile_append_of_pos hall, hstop, List.append_nil, List.take_of_length_le (by simp; omega)]

/-- **What an iteration can do**: it leaves the string if this is a name without `=`, it ends, or it goes
    on with a shorter string. -/
theorem parseField_cases (str : List UInt8) :
    (parseField fill str st = none ∧ str ≠ [] ∧ 0x3d ∉ str ∧ str.length < 128) ∨
    (∃ r, parseField fill str st = some (.inl r)) ∨
    ∃ next, parseField fill str st = some (.inr next) ∧ next.1.length < str.length := by
  rcases hname : fieldToken str 0x3d with _ | name
  · exact .inr (.inl ⟨_, by simp only [parseField, hname]; rfl⟩)
  obtain ⟨hsub, hne, hd, hlt⟩ := fieldToken_spec hname
  by_cases hin : name.length + 1 ≤ str.length
  · rcases hvalue : fieldToken (str.drop (name.length + 1)) 0x2c with _ | value
    · exact .inr (.inl ⟨(.invalidValue, st), by simp [parseField, hname, advance, hin, hvalue]⟩)
    have hle := (fieldToken_spec hvalue).1.length_le
    right
    simp only [parseField, hname, advance, hin, hvalue, hle, if_true, Option.bind_eq_bind, Option.bind_some]
    split
    · split
      · refine .inr ⟨_, rfl, ?_⟩
        simp
        omega
      · exact .inl ⟨_, rfl⟩
    · exact .inl ⟨_, rfl⟩
  · rw [hsub.eq_of_length_le (by omega)] at hne hd hlt hname hin
    exact .inl ⟨by simp [parseField, hname, advance], hne, hd, hlt⟩

theorem parseField_none_iff :
    parseField fill str st = none ↔ str ≠ [] ∧ 0x3d ∉ str ∧ str.length < 128 := by
  constructor
  · intro h
    obtain ⟨_, h⟩ | ⟨_, hr⟩ | ⟨_, hr, _⟩ := parseField_cases fill st str
    · exact h
    all_goals simp [h] at hr
  · rintro ⟨hne, hd, hlt⟩
    have h := @fieldToken_append str [] 0x3d hne hlt hd nofun
    rw [List.append_nil] at h
    simp [parseField, h, advance]

theorem parseField_shorter {next : List UInt8 × σ}
    (h : parseField fill str st = some (.inr next)) : next.1.length < str.length := by
  obtain ⟨hr, _⟩ | ⟨_, hr⟩ | ⟨_, hr, hlt⟩ := parseField_cases fill st str
  all_goals cases hr.symm.trans h
  exact hlt

def parseStruct (str : List UInt8) (st : σ) : Option (DocaError × σ) :=
  match _h : parseField fill str st with
  | none => none
  | some (.inl r) => some r
  | some (.inr next) => parseStruct next.1 next.2
termination_by str.length
decreasing_by exact parseField_shorter fill _ ‹_›

def Comes : List UInt8 × σ → List UInt8 × σ → Prop :=
  Relation.ReflTransGen fun p q => parseField fill p.1 p.2 = some (.inr q)

theorem parseStruct_none_iff (str : List UInt8) : parseStruct fill str st = none ↔
    ∃ p, Comes fill (str, st) p ∧ p.1 ≠ [] ∧ 0x3d ∉ p.1 ∧ p.1.length < 128 := by
  unfold Comes
  fun_induction parseStruct fill str st with
  | case1 str st h =>
    exact iff_of_true rfl ⟨_, .refl, (parseField_none_iff fill _).mp h⟩
  | case2 str st r h =>
    refine iff_of_false nofun fun ⟨p, hp, hout⟩ => ?_
    obtain rfl | ⟨q, hq, _⟩ := Relation.ReflTransGen.cases_head_iff.mp hp
    · cases h.symm.trans ((parseField_none_iff fill _).mpr hout)
    · cases h.symm.trans hq
  | case3 str st next h ih =>
    rw [ih]
    refine exists_congr fun p => and_congr_left fun hout => ⟨.head h, fun hp => ?_⟩
    obtain rfl | ⟨q, hq, hp⟩ := Relation.ReflTransGen.cases_head_iff.mp hp
    · cases h.symm.trans ((parseField_none_iff fill _).mpr hout)
    · cases h.symm.trans hq
      exact hp

structure Pair (p : List UInt8 × List UInt8) : Prop where
  name_ne : p.1 ≠ []
  name_lt : p.1.length < 128
  name_eq : 0x3d ∉ p.1
  value_ne : p.2 ≠ []
  value_lt : p.2.length < 128
  value_comma : 0x2c ∉ p.2

def structText (pairs : List (List UInt8 × List UInt8)) : List UInt8 :=
  [0x2c].intercalate (pairs.map fun p => p.1 ++ 0x3d :: p.2)

def fillUntil : List (List UInt8 × List UInt8) → σ → DocaError × σ
  | [], st => (.success, st)
  | p :: pairs, st =>
    match fill p.1 p.2 st with
    | (.success, st) => fillUntil pairs st
    | r => r

theorem parseField_pair (h : Pair p) (hrest : ∀ c ∈ rest.head?, c = 0x2c) :
    parseField fill (p.1 ++ 0x3d :: (p.2 ++ rest)) st = match fill p.1 p.2 st with
      | (.success, st) =>
        some (if rest.head? = some 0x2c then .inr (rest.tail, st) else .inl (.success, st))
      | r => some (.inl r) := by
  have hname := @fieldToken_append p.1 (0x3d :: (p.2 ++ rest)) 0x3d h.name_ne h.name_lt h.name_eq (by simp)
  have hvalue := fieldToken_append h.value_ne h.value_lt h.value_comma hrest
  have hdrop : (p.1 ++ 0x3d :: (p.2 ++ rest)).drop (p.1.length + 1) = p.2 ++ rest := by
    rw [List.drop_append]
    simp
  simp [parseField, hname, advance, hvalue, hdrop]

theorem parseStruct_eq : parseStruct fill str st =
    (parseField fill str st).bind fun
      | .inl r => some r
      | .inr next => parseStruct fill next.1 next.2 := by
  rw [parseStruct]
  split <;> simp [*]

theorem parseStruct_pairs {pairs : List (List UInt8 × List UInt8)} (hne : pairs ≠ [])
    (h : ∀ p ∈ pairs, Pair p) :
    parseStruct fill (structText pairs) st = some (fillUntil fill pairs st) := by
  induction pairs generalizing st with
  | nil => exact absurd rfl hne
  | cons p pairs ih =>
    rw [List.forall_mem_cons] at h
    rcases pairs with _ | ⟨q, pairs⟩
    · have htext : structText [p] = p.1 ++ 0x3d :: (p.2 ++ []) := by simp [structText]
      rw [htext, parseStruct_eq, parseField_pair fill st h.1 (by simp)]
      simp only [fillUntil]
      split <;> rfl
    · have htext : structText (p :: q :: pairs) =
          p.1 ++ 0x3d :: (p.2 ++ 0x2c :: structText (q :: pairs)) := by
        simp [structText]
      rw [htext, parseStruct_eq, parseField_pair fill st h.1 (by simp), fillUntil]
      split
      · exact ih _ (by simp) h.2
      · rfl

/-- **When the cursor stays in the command**: unless an iteration begins with a name that no `=` follows
    up to the end.  Well-formed pairs are handed over in order until the callback fails. -/
theorem struct_parsed_iff :
    (∀ str, parseStruct fill str st = none ↔
      ∃ p, Comes fill (str, st) p ∧ p.1 ≠ [] ∧ 0x3d ∉ p.1 ∧ p.1.length < 128) ∧
    ∀ pairs ≠ [], (∀ p ∈ pairs, Pair p) →
      parseStruct fill (structText pairs) st = some (fillUntil fill pairs st) :=
  ⟨parseStruct_none_iff fill st, fun _ => parseStruct_pairs fill st⟩

end Struct

theorem name_overruns : parseStruct (fun _ _ st => (.success, st)) [0x61] () = none :=
  (parseStruct_none_iff _ _ _).mpr ⟨_, .refl, by decide⟩

end Doca.Common
