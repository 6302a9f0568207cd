import Doca.Rdmo.PointerWord

/-!
# RDMO worker: appends to one pointer word

A pointer word of a client that is not mapped into the worker is read by a Get, then cached, and put back
by a flush.

* `Word.current` — the pointer is in the cache or, without an entry, in memory; `WordInv` — it stands
  behind the data of all appends that were started.

Principal result: `appends_in_order` — in every run in which `Exclusive` holds and the final flush was
not started in a pause.  `urom_worker_rdmo_check_fenced` does not look at `pause`, so that a run can
violate both: `appends_overlap`.
-/

namespace Doca.Rdmo

open Doca.Lib QState List

structure Word where
  client : Nat
  rkey : UInt64
  addr : UInt64
  init : UInt64
  deriving DecidableEq

namespace Word

variable (W : Word)

def names (r : Request) : Bool :=
  match r.body.op with
  | .append h => decide (r.client = W.client ∧ h.ptrRkey = W.rkey ∧ h.ptrAddr = W.addr)
  | _ => false

def Clear (a n : UInt64) : Prop :=
  a.toNat + n.toNat ≤ W.addr.toNat ∨ (W.addr.toNat + 8 ≤ a.toNat ∧ a.toNat + n.toNat ≤ 2 ^ 64)

instance (W : Word) (a n : UInt64) : Decidable (W.Clear a n) :=
  inferInstanceAs (Decidable (_ ∨ _))

def apply (v : Option UInt64) : Rma → Option UInt64
  | .putWord a val => if a = W.addr then some val else if W.Clear a 8 then v else none
  | .add a len => if a = W.addr then v.map (· + len) else if W.Clear a 8 then v else none
  | .data a n => if W.Clear a n then v else none
  | .get _ _ => v
  | .flushGet _ => v
  | .epFlush _ => v

def after (l : List Rma) : Option UInt64 := l.foldl W.apply (some W.init)

def readBy (r : Request) (l : List Rma) : Option UInt64 :=
  W.after (l.takeWhile fun e => e ≠ .get r W.addr)

def appends (starts : List (Start Body)) : List Request :=
  (starts.map Start.req).filter W.names

def total (rs : List Request) : UInt64 := rs.foldl (fun v r => v + r.body.length) W.init

variable (f : Face)

def current : Option UInt64 :=
  match lookup CacheEntry.key (W.rkey, W.addr) f.cache with
  | some e => some e.val
  | none => W.after f.log

end Word

def RdmoOp.isAppend : RdmoOp → Bool
  | .append _ => true
  | _ => false

variable (W : Word)

def Word.Apart : RdmoOp → Prop
  | .append h => (h.ptrRkey = W.rkey ∧ h.ptrAddr = W.addr) ∨ W.Clear h.ptrAddr 8
  | _ => True

instance (W : Word) : (op : RdmoOp) → Decidable (W.Apart op)
  | .append _ => inferInstanceAs (Decidable (_ ∨ _))
  | .flush _ => inferInstanceAs (Decidable True)
  | .scatter _ => inferInstanceAs (Decidable True)

variable (f : Face)

/-- No append of the client was started while it was paused; another append names a word apart from this
    one, and no request data was written to it. -/
structure Exclusive : Prop where
  unpaused : ∀ t ∈ f.starts, t.req.body.op.isAppend = true → t.paused = false
  pointers : ∀ t ∈ f.starts, W.Apart t.req.body.op
  data : ∀ x ∈ f.writes, W.Clear x.addr x.len

instance (W : Word) (f : Face) : Decidable (Exclusive W f) :=
  decidable_of_iff ((∀ t ∈ f.starts, t.req.body.op.isAppend = true → t.paused = false) ∧
      (∀ t ∈ f.starts, W.Apart t.req.body.op) ∧ ∀ x ∈ f.writes, W.Clear x.addr x.len)
    ⟨fun h => ⟨h.1, h.2.1, h.2.2⟩, fun h => ⟨h.unpaused, h.pointers, h.data⟩⟩

structure Word.Registered (host : Host) : Prop where
  mkey : ∃ m, host.mkeys W.client W.rkey = some m ∧ m.ucpRkey = W.rkey
  unmapped : host.mapped W.client W.rkey W.addr = false

/-! ## The word in memory -/

section Memory

variable {W : Word} {l l' : List Rma} {r : Request}

def Word.Inert (W : Word) (e : Rma) : Prop := ∀ v, W.apply v e = v

variable {a : UInt64}

theorem Word.Clear.ne (h : W.Clear a 8) : a ≠ W.addr := by
  have height : (8 : UInt64).toNat = 8 := rfl
  rintro rfl
  rcases h with h | h <;> omega

theorem Word.Clear.inert_put (h : W.Clear a 8) (val : UInt64) : W.Inert (.putWord a val) := by
  intro v
  simp only [Word.apply, if_neg h.ne, if_pos h]

theorem Word.Clear.inert_add (h : W.Clear a 8) (len : UInt64) : W.Inert (.add a len) := by
  intro v
  simp only [Word.apply, if_neg h.ne, if_pos h]

theorem Word.Clear.inert_data {x : Write} (h : W.Clear x.addr x.len) : W.Inert x.rma :=
  fun _ => if_pos h

theorem Word.after_append (W : Word) (l l' : List Rma) :
    W.after (l ++ l') = l'.foldl W.apply (W.after l) := foldl_append ..

theorem Word.foldl_inert (hl : ∀ e ∈ l, W.Inert e) (v : Option UInt64) : l.foldl W.apply v = v := by
  induction l with
  | nil => rfl
  | cons e rest ih =>
    rw [foldl_cons, hl e (mem_cons_self ..)]
    exact ih fun e he => hl e (mem_cons_of_mem _ he)

theorem Word.after_inert (hl : ∀ e ∈ l', W.Inert e) : W.after (l ++ l') = W.after l := by
  rw [W.after_append, Word.foldl_inert hl]

theorem Word.readBy_append (h : .get r W.addr ∈ l) : W.readBy r (l ++ l') = W.readBy r l := by
  unfold Word.readBy
  congr 1
  induction l with
  | nil => cases h
  | cons e rest ih =>
    rw [cons_append, takeWhile_cons, takeWhile_cons]
    split
    · rename_i hne
      have hmem : .get r W.addr ∈ rest := by
        rcases mem_cons.mp h with heq | hmem
        · simp [← heq] at hne
        · exact hmem
      rw [ih hmem]
    · rfl

theorem Word.readBy_new (h : .get r W.addr ∉ l) : W.readBy r (l ++ [.get r W.addr]) = W.after l := by
  unfold Word.readBy
  congr 1
  rw [takeWhile_append_of_pos]
  · simp
  · intro e he
    simp only [ne_eq, decide_eq_true_eq]
    rintro rfl
    exact h he

theorem Word.total_append (W : Word) (rs : List Request) (r : Request) :
    W.total (rs ++ [r]) = W.total rs + r.body.length := by
  simp [Word.total]

theorem Word.appends_append (W : Word) (ts us : List (Start Body)) :
    W.appends (ts ++ us) = W.appends ts ++ W.appends us := by
  simp [Word.appends]

theorem Word.names_append {h : AppendHdr} (hnames : W.names r = true) (hop : r.body.op = .append h) :
    r.client = W.client ∧ h.ptrRkey = W.rkey ∧ h.ptrAddr = W.addr := by
  simpa [Word.names, hop] using hnames

theorem Word.names_op (hnames : W.names r = true) : ∃ h, r.body.op = .append h := by
  unfold Word.names at hnames
  split at hnames
  · rename_i h hop
    exact ⟨h, hop⟩
  · cases hnames

/-- **Flushing the cache** puts the pointer in memory. -/
theorem Word.after_flush {f : Face} (hkeys : (f.cache.map CacheEntry.key).Nodup)
    (hcached : ∀ e ∈ f.cache, e.key = (W.rkey, W.addr) ∨ W.Clear e.addr 8) {es : List CacheEntry}
    (hes : es.Perm f.cache) : W.after (f.log ++ es.map CacheEntry.rma) = W.current f := by
  have hinert : ∀ es' : List CacheEntry, (∀ y ∈ es', y ∈ f.cache ∧ y.key ≠ (W.rkey, W.addr)) →
      ∀ e ∈ es'.map CacheEntry.rma, W.Inert e := by
    intro es' hes' e he
    obtain ⟨y, hy, rfl⟩ := mem_map.mp he
    obtain ⟨hmem, hne⟩ := hes' y hy
    exact ((hcached y hmem).resolve_left hne).inert_put _
  unfold Word.current
  split
  · -- one of the entries is the word
    rename_i e hhit
    obtain ⟨hmem, hkey⟩ := mem_of_lookup hhit
    obtain ⟨pre, post, rfl⟩ := append_of_mem (hes.mem_iff.mpr hmem)
    have hnd : ((pre ++ e :: post).map CacheEntry.key).Nodup := (hes.map _).nodup_iff.mpr hkeys
    rw [map_append, map_cons, nodup_middle, nodup_cons] at hnd
    have hpost : ∀ y ∈ post, y ∈ f.cache ∧ y.key ≠ (W.rkey, W.addr) := by
      intro y hy
      refine ⟨hes.mem_iff.mp (by simp [hy]), fun hno => hnd.1 ?_⟩
      rw [hkey, ← hno]
      exact mem_append_right _ (mem_map_of_mem hy)
    have haddr : e.addr = W.addr := congrArg Prod.snd hkey
    rw [map_append, map_cons, W.after_append, foldl_append, foldl_cons,
      Word.foldl_inert (hinert post hpost)]
    simp only [CacheEntry.rma, Word.apply, if_pos haddr]
  · rename_i hmiss
    refine Word.after_inert (hinert es fun y hy => ?_)
    exact ⟨hes.mem_iff.mp hy, lookup_eq_none.mp hmiss y (hes.mem_iff.mp hy)⟩

end Memory

/-! ## The invariant -/

structure Word.Settled : Prop where
  gets : ∀ q ∈ f.gets, W.names q = false
  current : W.current f = some (W.total (W.appends f.starts))

/-- The last append reads the word, and will find the pointer behind the others. -/
structure Word.Reading (q : Request) (rs : List Request) : Prop where
  gets : q ∈ f.gets
  names : W.names q = true
  miss : lookup CacheEntry.key (W.rkey, W.addr) f.cache = none
  appends : W.appends f.starts = rs ++ [q]
  issued : .get q W.addr ∈ f.log
  read : W.readBy q f.log = some (W.total rs)

structure Word.Flushed (q : Request) : Prop where
  gets : ∀ g ∈ f.gets, W.names g = false
  miss : lookup CacheEntry.key (W.rkey, W.addr) f.cache = none
  memory : ∃ pre post, f.log = pre ++ .epFlush q :: post ∧
    W.after pre = some (W.total (W.appends f.starts))

/-- The destination of an append is behind the appends that were started before it. -/
def Word.Placed (rs : List Request) (x : Write) : Prop :=
  ∃ before later, rs = before ++ x.req :: later ∧ x.addr = W.total before ∧ x.len = x.req.body.length

/-- A flush was started, while its client was paused or not, and no append to the word after it. -/
structure Word.LastFlush (starts : List (Start Body)) (q : Request) (paused : Bool) : Prop where
  flush : ∃ id, q.body.op = .flush id
  last : ∃ before later running, starts = before ++ ⟨q, paused, running⟩ :: later ∧
    ∀ u ∈ later, W.names u.req = false

structure WordInv : Prop where
  keys : (f.cache.map CacheEntry.key).Nodup
  cached : ∀ e ∈ f.cache, e.key = (W.rkey, W.addr) ∨ W.Clear e.addr 8
  gets : f.gets = [] ∨ ∃ q, f.gets = [q] ∧ f.pause = true
  issued : ∀ q a, .get q a ∈ f.log → q ∈ f.starts.map Start.req
  pointer : W.Settled f ∨ ∃ q rs, W.Reading f q rs
  dests : ∀ x ∈ f.writes, W.names x.req = true → W.Placed (W.appends f.starts) x
  flushed : ∀ q, W.LastFlush f.starts q false → W.Flushed f q

section Steps

variable {W : Word} {f f' : Face} {t : Start Body} {r : Request}

theorem WordInv.settled (h : WordInv W f) (hgets : f.gets = []) : W.Settled f := by
  rcases h.pointer with hset | ⟨q, rs, hread⟩
  · exact hset
  · have hno := hread.gets
    rw [hgets] at hno
    cases hno

theorem WordInv.no_gets (h : WordInv W f) (hpause : f.pause = false) : f.gets = [] := by
  rcases h.gets with hnone | ⟨q, -, hno⟩
  · exact hnone
  · rw [hpause] at hno
    cases hno

theorem Word.Placed.append {rs : List Request} {x : Write} (h : W.Placed rs x) (qs : List Request) :
    W.Placed (rs ++ qs) x := by
  obtain ⟨before, later, rfl, haddr, hlen⟩ := h
  exact ⟨before, later ++ qs, by simp, haddr, hlen⟩

variable {starts : List (Start Body)}

theorem Word.LastFlush.of_append {q : Request} {paused : Bool}
    (h : W.LastFlush (starts ++ [t]) q paused) : (∃ running, t = ⟨q, paused, running⟩) ∨
      (W.LastFlush starts q paused ∧ W.names t.req = false) := by
  obtain ⟨hop, before, later, running, heq, hlater⟩ := h
  rcases eq_nil_or_concat later with rfl | ⟨later', u, rfl⟩
  · obtain ⟨-, heq⟩ := append_inj' heq rfl
    rw [cons.injEq] at heq
    exact .inl ⟨running, heq.1⟩
  · rw [concat_eq_append] at heq hlater
    rw [← cons_append, ← append_assoc] at heq
    obtain ⟨hstarts, heq⟩ := append_inj' heq rfl
    rw [cons.injEq] at heq
    refine .inr ⟨⟨hop, before, later', running, hstarts, fun u hu => ?_⟩, ?_⟩
    · exact hlater u (mem_append_left _ hu)
    · exact heq.1 ▸ hlater u (mem_append_right _ (mem_singleton.mpr rfl))

/-- A step that passes the word by: the cache, the memory and the Gets are changed elsewhere, and nothing
    is started. -/
structure Word.Passes (W : Word) (f f' : Face) (l : List Rma) (xs : List Write) : Prop where
  keys : (f'.cache.map CacheEntry.key).Nodup
  cached : ∀ e ∈ f'.cache, e.key = (W.rkey, W.addr) ∨ W.Clear e.addr 8
  entry : lookup CacheEntry.key (W.rkey, W.addr) f'.cache = lookup CacheEntry.key (W.rkey, W.addr) f.cache
  gets : f'.gets = [] ∨ ∃ q, f'.gets = [q] ∧ f'.pause = true
  named : ∀ q, W.names q = true → (q ∈ f'.gets ↔ q ∈ f.gets)
  log : f'.log = f.log ++ l
  inert : ∀ e ∈ l, W.Inert e
  issued : ∀ q a, .get q a ∈ l → q ∈ f.starts.map Start.req
  starts : f'.starts = f.starts
  writes : f'.writes = f.writes ++ xs
  foreign : ∀ x ∈ xs, W.names x.req = false

theorem WordInv.passes (h : WordInv W f) (l : List Rma) (xs : List Write) (hp : W.Passes f f' l xs) :
    WordInv W f' := by
  have hgets : (∀ q ∈ f.gets, W.names q = false) → ∀ q ∈ f'.gets, W.names q = false := by
    intro hnone q hq
    refine Bool.eq_false_iff.mpr fun hnames => ?_
    rw [hnone q ((hp.named q hnames).mp hq)] at hnames
    cases hnames
  have hafter : W.after f'.log = W.after f.log := by
    rw [hp.log, Word.after_inert hp.inert]
  refine ⟨hp.keys, hp.cached, hp.gets, ?_, ?_, ?_, ?_⟩
  · intro q a hq
    rw [hp.log] at hq
    rw [hp.starts]
    exact (mem_append.mp hq).elim (h.issued q a) (hp.issued q a)
  · rcases h.pointer with hset | ⟨q, rs, hread⟩
    · refine .inl ⟨hgets hset.gets, ?_⟩
      rw [hp.starts, ← hset.current, Word.current, hp.entry, hafter, Word.current]
    · refine .inr ⟨q, rs, (hp.named q hread.names).mpr hread.gets, hread.names,
        hp.entry.trans hread.miss, hp.starts ▸ hread.appends, ?_, ?_⟩
      · rw [hp.log]
        exact mem_append_left _ hread.issued
      · rw [hp.log, Word.readBy_append hread.issued, hread.read]
  · intro x hx hnames
    rw [hp.writes] at hx
    rw [hp.starts]
    rcases mem_append.mp hx with hx | hx
    · exact h.dests x hx hnames
    · rw [hp.foreign x hx] at hnames
      cases hnames
  · intro q hq
    rw [hp.starts] at hq
    have hfl := h.flushed q hq
    obtain ⟨pre, post, hlog, hval⟩ := hfl.memory
    refine ⟨hgets hfl.gets, hp.entry.trans hfl.miss, pre, post ++ l, ?_, ?_⟩
    · rw [hp.log, hlog, append_assoc, cons_append]
    · rw [hp.starts, hval]

def Face.begin (t : Start Body) (f : Face) : Face := { f with starts := f.starts ++ [t] }

def Face.advance (f : Face) (h : AppendHdr) (r : Request) (v : UInt64) (xs : List Write) : Face :=
  { f with
    pause := false
    cache := put CacheEntry.key ⟨h.ptrRkey, h.ptrAddr, v + r.body.length⟩ f.cache
    log := f.log ++ xs.map Write.rma
    writes := f.writes ++ xs }

variable {xs : List Write}

theorem WordInv.move {h : AppendHdr} {v : UInt64} {rs : List Request}
    (hkeys : (f.cache.map CacheEntry.key).Nodup)
    (hcached : ∀ e ∈ f.cache, e.key = (W.rkey, W.addr) ∨ W.Clear e.addr 8) (hgets : f.gets = [])
    (hissued : ∀ q a, .get q a ∈ f.log → q ∈ f.starts.map Start.req)
    (hdests : ∀ x ∈ f.writes, W.names x.req = true → W.Placed (W.appends f.starts) x)
    (hlast : ∀ q, ¬ W.LastFlush f.starts q false) (hnames : W.names r = true)
    (hop : r.body.op = .append h) (happends : W.appends f.starts = rs ++ [r]) (hv : v = W.total rs)
    (hxs : ∀ x ∈ xs, x.req = r ∧ x.addr = v ∧ x.len = r.body.length) :
    WordInv W (f.advance h r v xs) := by
  obtain ⟨-, hrkey, haddr⟩ := Word.names_append hnames hop
  have hkey : CacheEntry.key ⟨h.ptrRkey, h.ptrAddr, v + r.body.length⟩ = (W.rkey, W.addr) :=
    Prod.ext hrkey haddr
  refine ⟨nodup_put hkeys, fun e he => ?_, .inl hgets, fun q a hq => ?_, .inl ⟨?_, ?_⟩,
    fun x hx hx' => ?_, fun q hq => absurd hq (hlast q)⟩
  · rcases mem_put.mp he with rfl | ⟨he, -⟩
    · exact .inl hkey
    · exact hcached e he
  · rcases mem_append.mp hq with hq | hq
    · exact hissued q a hq
    · obtain ⟨x, -, hno⟩ := mem_map.mp hq
      cases hno
  · intro q hq
    dsimp only [Face.advance] at hq
    rw [hgets] at hq
    cases hq
  · have hhit : lookup CacheEntry.key (CacheEntry.key ⟨h.ptrRkey, h.ptrAddr, v + r.body.length⟩)
        (put CacheEntry.key ⟨h.ptrRkey, h.ptrAddr, v + r.body.length⟩ f.cache) = some _ := lookup_put
    rw [hkey] at hhit
    simp only [Word.current, Face.advance, hhit, happends, W.total_append]
    rw [hv]
  · rcases mem_append.mp hx with hx | hx
    · exact hdests x hx hx'
    · obtain ⟨hreq, hx, hlen⟩ := hxs x hx
      refine ⟨rs, [], ?_, hx.trans hv, ?_⟩
      · rw [hreq]
        exact happends
      · rw [hreq]
        exact hlen

theorem Word.no_lastFlush (hnames : W.names t.req = true) (q : Request) :
    ¬ W.LastFlush (starts ++ [t]) q false := by
  intro h
  rcases h.of_append with ⟨running, rfl⟩ | ⟨-, hno⟩
  · obtain ⟨id, hop⟩ := h.flush
    obtain ⟨hdr, hop'⟩ := Word.names_op hnames
    rw [hop] at hop'
    cases hop'
  · rw [hnames] at hno
    cases hno

theorem Word.appends_named (hnames : W.names t.req = true) :
    W.appends (starts ++ [t]) = W.appends starts ++ [t.req] := by
  rw [W.appends_append]
  simp [Word.appends, hnames]

theorem WordInv.issued_begin (h : WordInv W f) (t : Start Body) (q : Request) (a : UInt64)
    (hq : .get q a ∈ f.log) : q ∈ (f.begin t).starts.map Start.req := by
  rw [Face.begin, map_append]
  exact mem_append_left _ (h.issued q a hq)

theorem Word.appends_other (hother : W.names t.req = false) :
    W.appends (starts ++ [t]) = W.appends starts := by
  rw [W.appends_append]
  simp [Word.appends, hother]

theorem WordInv.begin_other (h : WordInv W f) (hother : W.names t.req = false)
    (hop : ∀ id, t.req.body.op ≠ .flush id) : WordInv W (f.begin t) := by
  have happends : W.appends (f.begin t).starts = W.appends f.starts := Word.appends_other hother
  refine ⟨h.keys, h.cached, h.gets, fun q a => h.issued_begin t q a, ?_, ?_, fun q hq => ?_⟩
  · rcases h.pointer with hset | ⟨q, rs, hread⟩
    · refine .inl ⟨hset.gets, ?_⟩
      rw [happends, ← hset.current]
      rfl
    · exact .inr ⟨q, rs, { hread with appends := happends.trans hread.appends }⟩
  · rw [happends]
    exact h.dests
  · rcases hq.of_append with ⟨running, rfl⟩ | ⟨hlast, -⟩
    · obtain ⟨id, hflush⟩ := hq.flush
      exact absurd hflush (hop id)
    · refine { h.flushed q hlast with memory := ?_ }
      rw [happends]
      exact (h.flushed q hlast).memory

variable {hdr : AppendHdr}

theorem WordInv.hit (h : WordInv W f) (hgets : f.gets = []) (hnames : W.names t.req = true)
    (hop : t.req.body.op = .append hdr) {e : CacheEntry}
    (hhit : lookup CacheEntry.key (hdr.ptrRkey, hdr.ptrAddr) f.cache = some e)
    (hxs : ∀ x ∈ xs, x.req = t.req ∧ x.addr = e.val ∧ x.len = t.req.body.length) :
    WordInv W ((f.begin t).advance hdr t.req e.val xs) := by
  have hset := h.settled hgets
  obtain ⟨-, hrkey, haddr⟩ := Word.names_append hnames hop
  have hval : e.val = W.total (W.appends f.starts) := by
    have hcurrent := hset.current
    rw [hrkey, haddr] at hhit
    simp only [Word.current, hhit, Option.some.injEq] at hcurrent
    exact hcurrent
  refine WordInv.move (f := f.begin t) h.keys h.cached hgets (fun q a => h.issued_begin t q a)
    (fun x hx hx' => ?_) (Word.no_lastFlush hnames) hnames hop (Word.appends_named hnames) hval hxs
  rw [Face.begin, Word.appends_named hnames]
  exact (h.dests x hx hx').append _

theorem WordInv.read (h : WordInv W f) (hgets : f.gets = []) (hnames : W.names t.req = true)
    (hfresh : t.req ∉ f.starts.map Start.req) (hop : t.req.body.op = .append hdr)
    (hmiss : lookup CacheEntry.key (hdr.ptrRkey, hdr.ptrAddr) f.cache = none) :
    WordInv W { f.begin t with
      pause := true
      log := f.log ++ [.get t.req hdr.ptrAddr]
      gets := f.gets ++ [t.req] } := by
  have hset := h.settled hgets
  obtain ⟨-, hrkey, haddr⟩ := Word.names_append hnames hop
  rw [hrkey, haddr] at hmiss
  have hnew : .get t.req W.addr ∉ f.log := fun hno => hfresh (h.issued _ _ hno)
  have hval : W.after f.log = some (W.total (W.appends f.starts)) := by
    have hcurrent := hset.current
    simpa only [Word.current, hmiss] using hcurrent
  rw [haddr, hgets]
  refine ⟨h.keys, h.cached, .inr ⟨t.req, rfl, rfl⟩, fun q a hq => ?_,
    .inr ⟨t.req, W.appends f.starts, mem_singleton.mpr rfl, hnames, hmiss,
      Word.appends_named hnames, mem_append_right _ (mem_singleton.mpr rfl),
      (Word.readBy_new hnew).trans hval⟩,
    fun x hx hx' => ?_, fun q hq => absurd hq (Word.no_lastFlush hnames q)⟩
  · rcases mem_append.mp hq with hq | hq
    · exact h.issued_begin t q a hq
    · cases mem_singleton.mp hq
      simp [Face.begin]
  · dsimp only [Face.begin]
    rw [Word.appends_named hnames]
    exact (h.dests x hx hx').append _

theorem WordInv.got (h : WordInv W f) (hgets : f.gets = [r]) (hnames : W.names r = true)
    {v : UInt64} (hread : W.readBy r f.log = some v) (hop : r.body.op = .append hdr)
    (hxs : ∀ x ∈ xs, x.req = r ∧ x.addr = v ∧ x.len = r.body.length) :
    WordInv W (Face.advance { f with gets := [] } hdr r v xs) := by
  have hr : r ∈ f.gets := hgets ▸ mem_singleton.mpr rfl
  rcases h.pointer with hset | ⟨q, rs, hreading⟩
  · have hno := hset.gets r hr
    rw [hnames] at hno
    cases hno
  · have hq : q = r := mem_singleton.mp (hgets ▸ hreading.gets)
    subst hq
    have hval : v = W.total rs := by
      rw [hreading.read, Option.some.injEq] at hread
      exact hread.symm
    refine WordInv.move (f := { f with gets := [] }) h.keys h.cached rfl h.issued h.dests
      (fun q' hq' => ?_) hnames hop hreading.appends hval hxs
    have hno := (h.flushed q' hq').gets q hr
    rw [hnames] at hno
    cases hno

theorem WordInv.flush (h : WordInv W f) (hpaused : t.paused = f.pause) {id : UInt64}
    (hop : t.req.body.op = .flush id) {es : List CacheEntry} {l : List Rma} (hes : es.Perm f.cache)
    (hl : l = [] ∨ ∃ a, l = [.flushGet a]) :
    WordInv W { f.begin t with
      cache := []
      log := f.log ++ es.map CacheEntry.rma ++ l ++ [.epFlush t.req] } := by
  have hother : W.names t.req = false := by simp [Word.names, hop]
  have happends : W.appends (f.starts ++ [t]) = W.appends f.starts := Word.appends_other hother
  have hflush := Word.after_flush h.keys h.cached hes
  have hgetInert : ∀ e ∈ l, W.Inert e := by
    intro e he
    rcases hl with rfl | ⟨a, rfl⟩
    · cases he
    · cases mem_singleton.mp he
      exact fun _ => rfl
  have hbefore : W.after (f.log ++ es.map CacheEntry.rma ++ l) = W.current f := by
    rw [Word.after_inert hgetInert, hflush]
  have hall : W.after (f.log ++ es.map CacheEntry.rma ++ l ++ [.epFlush t.req]) = W.current f := by
    rw [Word.after_inert, hbefore]
    intro e he
    cases mem_singleton.mp he
    exact fun _ => rfl
  refine ⟨nodup_nil, fun _ he => (nomatch he), h.gets, fun q a hq => ?_, ?_, ?_, fun q hq => ?_⟩
  · refine h.issued_begin t q a ?_
    rcases hl with rfl | ⟨b, rfl⟩ <;> simpa [CacheEntry.rma] using hq
  · rcases h.pointer with hset | ⟨q, rs, hread⟩
    · refine .inl ⟨hset.gets, ?_⟩
      dsimp only [Face.begin]
      rw [happends, ← hset.current]
      exact hall
    · refine .inr ⟨q, rs, hread.gets, hread.names, rfl, happends.trans hread.appends, ?_, ?_⟩
      · simp [hread.issued]
      · dsimp only
        rw [append_assoc, append_assoc, Word.readBy_append hread.issued, hread.read]
  · intro x hx hx'
    dsimp only [Face.begin]
    rw [happends]
    exact h.dests x hx hx'
  · dsimp only [Face.begin] at hq
    rcases hq.of_append with ⟨running, rfl⟩ | ⟨hq, -⟩
    · -- the flush itself: the client is not paused, and the pointer was settled
      have hnone := h.no_gets hpaused.symm
      have hset := h.settled hnone
      refine ⟨hset.gets, rfl, f.log ++ es.map CacheEntry.rma ++ l, [], rfl, ?_⟩
      dsimp only [Face.begin]
      rw [happends, hbefore, hset.current]
    · have hfl := h.flushed q hq
      obtain ⟨pre, post, hlog, hval⟩ := hfl.memory
      refine ⟨hfl.gets, rfl, pre, post ++ es.map CacheEntry.rma ++ l ++ [.epFlush t.req], ?_, ?_⟩
      · dsimp only
        rw [hlog]
        simp
      · dsimp only [Face.begin]
        rw [happends, hval]

/-! ## Starts and completions -/

section Events

variable {host : Host} {cause : Cause}

theorem Word.Apart.clear {h : AppendHdr} (hap : W.Apart r.body.op) (hclient : r.client = W.client)
    (hop : r.body.op = .append h) (hother : W.names r = false) : W.Clear h.ptrAddr 8 := by
  rw [hop] at hap
  refine hap.resolve_left fun hsame => ?_
  have hnames : W.names r = true := by simp [Word.names, hop, hclient, hsame]
  rw [hother] at hnames
  cases hnames

theorem Word.not_mem_other (hother : W.names r = false) {q : Request} (hq : W.names q = true) :
    q ∉ [r] := by
  intro hmem
  rw [mem_singleton.mp hmem, hother] at hq
  cases hq

theorem Word.Registered.other (hreg : W.Registered host)
    (h : ∀ hdr, r.body.op = .append hdr → host.mapped r.client hdr.ptrRkey hdr.ptrAddr = true ∨
      ∀ m, host.mkeys r.client hdr.ptrRkey = some m → m.ucpRkey ≠ hdr.ptrRkey) :
    W.names r = false := by
  refine Bool.eq_false_iff.mpr fun hnames => ?_
  obtain ⟨hdr, hop⟩ := Word.names_op hnames
  obtain ⟨hclient, hrkey, haddr⟩ := Word.names_append hnames hop
  obtain ⟨m, hm, hkey⟩ := hreg.mkey
  rcases h hdr hop with hmapped | hunknown
  · rw [hclient, hrkey, haddr, hreg.unmapped] at hmapped
    cases hmapped
  · refine hunknown m ?_ ?_
    · rw [hclient, hrkey, hm]
    · rw [hrkey, hkey]

variable {xs : List Write}

theorem Word.inert_writes {ys : List Write} (h : ∀ x ∈ ys ++ xs, W.Clear x.addr x.len) :
    ∀ e ∈ xs.map Write.rma, W.Inert e := by
  intro e he
  obtain ⟨x, hx, rfl⟩ := mem_map.mp he
  exact (h x (mem_append_right _ hx)).inert_data

theorem WordInv.put_other (h : WordInv W f) {a : UInt64} (hclear : W.Clear a 8) (rkey val : UInt64) :
    ((put CacheEntry.key ⟨rkey, a, val⟩ f.cache).map CacheEntry.key).Nodup ∧
      (∀ e ∈ put CacheEntry.key ⟨rkey, a, val⟩ f.cache, e.key = (W.rkey, W.addr) ∨ W.Clear e.addr 8) ∧
      lookup CacheEntry.key (W.rkey, W.addr) (put CacheEntry.key ⟨rkey, a, val⟩ f.cache) =
        lookup CacheEntry.key (W.rkey, W.addr) f.cache := by
  refine ⟨nodup_put h.keys, fun e he => ?_, lookup_put_ne fun hkey => ?_⟩
  · rcases mem_put.mp he with rfl | ⟨he, -⟩
    · exact .inr hclear
    · exact h.cached e he
  · exact hclear.ne (congrArg Prod.snd hkey)

theorem no_get_in_data {l : List Rma} {q : Request} {a : UInt64}
    (hl : l = [] ∨ ∃ h, r.body.op = .append h ∧ l = [.add h.ptrAddr r.body.length]) :
    .get q a ∉ xs.map Write.rma ++ l := by
  rcases hl with rfl | ⟨h, -, rfl⟩ <;> simp [Write.rma]

section Other

variable (h : WordInv W f) (hclient : r.client = W.client) (hap : W.Apart r.body.op)
  (hother : W.names r = false)

include h hclient hap hother

theorem WordInv.data_other {l : List Rma} (hreq : ∀ x ∈ xs, x.req = r)
    (hl : l = [] ∨ ∃ h, r.body.op = .append h ∧ l = [.add h.ptrAddr r.body.length])
    (hdata : ∀ x ∈ f.writes ++ xs, W.Clear x.addr x.len) :
    WordInv W { f with log := f.log ++ xs.map Write.rma ++ l, writes := f.writes ++ xs } := by
  refine h.passes _ xs ⟨h.keys, h.cached, rfl, h.gets, fun _ _ => .rfl, append_assoc ..,
    fun e he => ?_, fun q a hno => absurd hno (no_get_in_data hl), rfl, rfl,
    fun x hx => by rw [hreq x hx, hother]⟩
  rcases mem_append.mp he with he | he
  · exact Word.inert_writes hdata e he
  · rcases hl with rfl | ⟨hdr, hop, rfl⟩
    · cases he
    · cases mem_singleton.mp he
      exact (hap.clear hclient hop hother).inert_add _

theorem WordInv.advance_other (hgets : f.gets = []) {hdr : AppendHdr} {v : UInt64}
    (hop : r.body.op = .append hdr) (hxs : ∀ x ∈ xs, x.req = r ∧ x.addr = v ∧ x.len = r.body.length)
    (hdata : ∀ x ∈ f.writes ++ xs, W.Clear x.addr x.len) :
    WordInv W (f.advance hdr r v xs) := by
  obtain ⟨hkeys, hcached, hentry⟩ :=
    h.put_other (hap.clear hclient hop hother) hdr.ptrRkey (v + r.body.length)
  exact h.passes (xs.map Write.rma) xs ⟨hkeys, hcached, hentry, .inl hgets, fun _ _ => .rfl, rfl,
    Word.inert_writes hdata, fun q a hno => by simp [Write.rma] at hno, rfl, rfl,
    fun x hx => by rw [(hxs x hx).1, hother]⟩

end Other

theorem WordInv.launch (hreg : W.Registered host) (h : WordInv W f) (hclient : t.req.client = W.client)
    (hpaused : t.paused = f.pause) (hfresh : t.req ∉ f.starts.map Start.req)
    (he : Effect host t.req .start (f.begin t) f') (hex : Exclusive W f') : WordInv W f' := by
  have hstart : t ∈ f.starts ++ [t] := mem_append_right _ (mem_singleton.mpr rfl)
  have hfree : t.req.body.op.isAppend = true → t ∈ f'.starts → f.gets = [] := fun happend ht =>
    h.no_gets (hpaused.symm.trans (hex.unpaused t ht happend))
  cases he with
  | nothing hunknown _ =>
    obtain ⟨hdr, hop, hno⟩ := hunknown rfl
    have hother : W.names t.req = false :=
      hreg.other fun h' hop' => .inr (by rw [hop] at hop'; cases hop'; exact hno)
    exact h.begin_other hother (by rw [hop]; nofun)
  | data xs l hreq hflush hmapped hl =>
    have hother : W.names t.req = false := hreg.other fun h hop => .inl (hmapped h hop)
    exact (h.begin_other hother hflush).data_other hclient (hex.pointers t hstart) hother hreq hl hex.data
  | flush id es l hop _ hes hl => exact h.flush hpaused hop hes hl
  | advance hdr v xs hop hv hxs =>
    obtain hno | ⟨-, e, hhit, rfl⟩ := hv
    · cases hno
    have hgets := hfree (by rw [hop]; rfl) hstart
    cases hother : W.names t.req with
    | true => exact h.hit hgets hother hop hhit hxs
    | false =>
      exact (h.begin_other hother (by rw [hop]; nofun)).advance_other hclient (hex.pointers t hstart)
        hother hgets hop hxs hex.data
  | read hdr hop _ hmiss =>
    have hgets := hfree (by rw [hop]; rfl) hstart
    cases hother : W.names t.req with
    | true => exact h.read hgets hother hfresh hop hmiss
    | false =>
      have hbegin := h.begin_other hother (by rw [hop]; nofun)
      refine hbegin.passes [.get t.req hdr.ptrAddr] [] ⟨h.keys, h.cached, rfl,
        .inr ⟨t.req, ?_, rfl⟩, fun q hq => ?_, rfl, fun e he => ?_, fun q a hq => ?_, rfl, by simp,
        by simp⟩
      · simp [Face.begin, hgets]
      · simp only [Face.begin, mem_append, or_iff_left_iff_imp]
        exact fun hno => absurd hno (Word.not_mem_other hother hq)
      · cases mem_singleton.mp he
        exact fun _ => rfl
      · cases mem_singleton.mp hq
        simp [Face.begin]

def Completes (r : Request) (cause : Cause) (gs gs' : List Request) : Prop :=
  ((∃ v, cause = .value v) ∧ gs.Perm (r :: gs')) ∨ (cause = .other ∧ gs' = gs)

theorem WordInv.completes (h : WordInv W f) {gs : List Request} (hgets : f.gets.Perm (r :: gs)) :
    f.gets = [r] ∧ gs = [] := by
  rcases h.gets with hnone | ⟨q, hone, -⟩
  · rw [hnone] at hgets
    exact absurd hgets.symm (cons_ne_nil _ _ ∘ perm_nil.mp)
  · rw [hone] at hgets
    have heq := singleton_perm.mp hgets
    rw [cons.injEq] at heq
    exact ⟨by rw [hone, heq.1], heq.2.symm⟩

theorem WordInv.completed_other (h : WordInv W f) (hother : W.names r = false) {gs : List Request}
    (hgs : Completes r cause f.gets gs) : WordInv W { f with gets := gs } := by
  obtain ⟨-, hperm⟩ | ⟨-, rfl⟩ := hgs
  · obtain ⟨hone, rfl⟩ := h.completes hperm
    refine h.passes [] [] ⟨h.keys, h.cached, rfl, .inl rfl, fun q hq => ?_, by simp, by simp, by simp,
      rfl, by simp, by simp⟩
    rw [hone]
    exact ⟨nofun, fun hno => absurd hno (Word.not_mem_other hother hq)⟩
  · exact h

theorem WordInv.callback (hreg : W.Registered host) (h : WordInv W f) (hclient : r.client = W.client)
    (hstart : ∃ t ∈ f.starts, t.req = r) {gs : List Request} (hgs : Completes r cause f.gets gs)
    (hread : ∀ v, cause = .value v → W.names r = true → W.readBy r f.log = some v)
    (he : Effect host r cause { f with gets := gs } f') (hex : Exclusive W f') : WordInv W f' := by
  obtain ⟨t, ht, rfl⟩ := hstart
  cases he with
  | nothing _ hvalue =>
    obtain ⟨⟨v, hno⟩, -⟩ | ⟨-, rfl⟩ := hgs
    · exact absurd hno (hvalue v)
    · exact h
  | data xs l hreq hflush hmapped hl =>
    have hother : W.names t.req = false := hreg.other fun h hop => .inl (hmapped h hop)
    exact (h.completed_other hother hgs).data_other hclient (hex.pointers t ht) hother hreq hl hex.data
  | flush _ _ _ _ hno _ _ =>
    subst hno
    obtain ⟨⟨v, hno⟩, -⟩ | ⟨hno, -⟩ := hgs <;> cases hno
  | advance hdr v xs hop hv hxs =>
    obtain hv | ⟨hno, -⟩ := hv
    · obtain ⟨hval, hperm⟩ | ⟨hno, -⟩ := hgs
      · obtain ⟨hone, rfl⟩ := h.completes hperm
        cases hother : W.names t.req with
        | true => exact h.got hone hother (hread v hv hother) hop hxs
        | false =>
          exact (h.completed_other hother (.inl ⟨hval, hperm⟩)).advance_other hclient (hex.pointers t ht)
            hother rfl hop hxs hex.data
      · rw [hv] at hno
        cases hno
    · subst hno
      obtain ⟨⟨v, hno⟩, -⟩ | ⟨hno, -⟩ := hgs <;> cases hno
  | read _ _ hno _ =>
    subst hno
    obtain ⟨⟨v, hno⟩, -⟩ | ⟨hno, -⟩ := hgs <;> cases hno

end Events

end Steps

/-! ## Runs -/

section Runs

variable {host : Host} {W : Word} {w : WState} {c : Nat} {r : Request}

theorem face_progress_other (host : Host) (hc : c ≠ r.client) (w : WState) :
    face c (settle r (progress (opsProgress host) r w)) = face c w := by
  have ht := opsTable_touches host r (w.pause r.client) w.inner
  obtain ⟨ks, hks⟩ := ht.pending
  obtain ⟨xs, hxs, hreq⟩ := ht.writes
  have hpending : ((ks.map (Pending.mk r)).filter fun p => p.req.client = c ∧ p.kind = .get) = [] := by
    rw [filter_eq_nil_iff]
    intro p hp
    obtain ⟨k, -, rfl⟩ := mem_map.mp hp
    simp [Ne.symm hc]
  have hwrites : (xs.filter fun x => x.req.client = c) = [] := by
    rw [filter_eq_nil_iff]
    intro x hx
    simp [hreq x hx, Ne.symm hc]
  unfold face Face.of
  rw [settle_pause, settle_starts, settle_inner]
  simp only [progress, Function.update_of_ne hc, opsProgress, getsOf, ht.cache c hc, ht.rma c hc, hks,
    hxs, filter_append, hpending, hwrites, append_nil]

theorem face_begin_other (hc : c ≠ r.client) (w : WState) : face c (begin r w) = face c w := by
  simp [face, Face.of, QState.begin, filter_append, Ne.symm hc]

def launchOf (r : Request) (w : WState) : Start Body :=
  ⟨r, w.pause r.client, w.running.filter fun q => q.ep = r.ep⟩

theorem face_begin_self (r : Request) (w : WState) :
    face r.client (begin r w) = (face r.client w).begin (launchOf r w) := by
  simp [face, Face.of, Face.begin, QState.begin, launchOf, filter_append]

theorem face_progress_self (host : Host) (r : Request) (w : WState) :
    face r.client (settle r (progress (opsProgress host) r w)) =
      Face.of r.client (opsTable host r (w.pause r.client) w.inner).pause w.starts
        (opsTable host r (w.pause r.client) w.inner).inner := by
  unfold face Face.of
  rw [settle_pause, settle_starts, settle_inner]
  simp only [progress, Function.update_self, opsProgress, getsOf]

variable {p : Pending}

theorem getsOf_completed {s : Worker} (hp : p ∈ s.pending) (v : UInt64) :
    Completes p.req (p.cause v) (getsOf p.req.client s) (getsOf p.req.client (s.completed p v)) := by
  have hperm := ((perm_cons_erase hp).filter fun q =>
    q.req.client = p.req.client ∧ q.kind = .get).map Pending.req
  unfold Completes Pending.cause getsOf
  rw [(completed_fields p v s).1]
  by_cases hkind : p.kind = .get
  · rw [if_pos hkind]
    exact .inl ⟨⟨v, rfl⟩, by simpa [hkind] using hperm⟩
  · rw [if_neg hkind]
    exact .inr ⟨rfl, congrArg _ (filter_erase_of_neg (by simp [hkind]) _)⟩

theorem face_completed_other (hc : c ≠ p.req.client) (v : UInt64) (w : WState) :
    face c { w with inner := w.inner.completed p v } = face c w := by
  obtain ⟨hpending, hwrites, -, hcache, hrma, -⟩ := completed_fields p v w.inner
  unfold face Face.of getsOf
  simp only [hpending, hwrites, hcache, hrma]
  rw [filter_erase_of_neg (by simp [Ne.symm hc])]

theorem Exclusive.mono {f f' : Face} (h : Exclusive W f') (hstarts : ∀ t ∈ f.starts, t ∈ f'.starts)
    (hwrites : ∀ x ∈ f.writes, x ∈ f'.writes) : Exclusive W f :=
  ⟨fun t ht => h.unpaused t (hstarts t ht), fun t ht => h.pointers t (hstarts t ht),
    fun x hx => h.data x (hwrites x hx)⟩

theorem Effect.exclusive {f f' : Face} {cause : Cause} (he : Effect host r cause f f')
    (h : Exclusive W f') : Exclusive W f := by
  cases he with
  | nothing _ _ => exact h
  | data xs l _ _ _ _ => exact h.mono (fun _ ht => ht) fun _ hx => mem_append_left _ hx
  | flush _ _ _ _ _ _ _ => exact ⟨h.unpaused, h.pointers, h.data⟩
  | advance _ _ xs _ _ _ => exact h.mono (fun _ ht => ht) fun _ hx => mem_append_left _ hx
  | read _ _ _ _ => exact ⟨h.unpaused, h.pointers, h.data⟩

/-- Every request is in its life, and as long as it is used exclusively the word keeps its invariant. -/
def WordKept (host : Host) (W : Word) (w : WState) : Prop :=
  (∀ r, Lives r (CallLife host r) w) ∧ (Exclusive W (face W.client w) → WordInv W (face W.client w))

theorem wordKept_keeps (hrel : Reliable host) (hreg : W.Registered host) :
    Keeps (opsProgress host) (WordKept host W) := by
  have hlives : ∀ r, Keeps (opsProgress host) (Lives r (CallLife host r)) := fun r =>
    Lives.keeps fun pause s hctx hmine hwrites _ => callLife_launch hrel hctx hmine hwrites pause
  refine ⟨fun a p f hw => hw, fun {w r} hw hs hfresh => ⟨fun q => (hlives q).launch (hw.1 q) hs hfresh, ?_⟩⟩
  obtain ⟨hlife, hword⟩ := hw
  by_cases hc : W.client = r.client
  · intro hex
    have hctx : (begin r w).inner.ctx r = .zero := by
      have hview := (hlife r).1 hfresh
      simp only [view, View.unstarted, View.mk.injEq] at hview
      exact hview.2.2.1
    have heffect := launch_effect hrel hctx (w.pause r.client) (begin r w).starts
    rw [hc] at hex hword ⊢
    rw [face_progress_self] at hex ⊢
    have hbegin : Face.of r.client (w.pause r.client) (begin r w).starts w.inner =
        (face r.client w).begin (launchOf r w) := face_begin_self r w
    change Effect host r .start (Face.of r.client (w.pause r.client) (begin r w).starts w.inner) _
      at heffect
    rw [hbegin] at heffect
    have hbefore : Exclusive W (face r.client w) :=
      (heffect.exclusive hex).mono (fun t ht => mem_append_left _ ht) fun _ hx => hx
    refine WordInv.launch (t := launchOf r w) hreg (hword hbefore) hc.symm rfl
      (fun hno => hfresh ?_) heffect hex
    obtain ⟨t, ht, hreq⟩ := mem_map.mp hno
    exact mem_map.mpr ⟨t, mem_of_mem_filter ht, hreq⟩
  · rw [face_progress_other host hc, face_begin_other hc]
    exact hword

def ReadsMemory (W : Word) (w : WState) (e : WEvent) : Prop :=
  WEnabled w e ∧ match e with
    | .message _ _ => True
    | .callback p v => p.kind = .get → W.names p.req = true →
        W.readBy p.req (w.inner.rma W.client) = some v

instance (W : Word) (w : WState) : (e : WEvent) → Decidable (ReadsMemory W w e)
  | .message _ _ => inferInstanceAs (Decidable (_ ∧ True))
  | .callback _ _ => inferInstanceAs (Decidable (_ ∧ (_ → _ → _)))

theorem WordKept.callback (hrel : Reliable host) (hreg : W.Registered host) (hw : WInv w)
    (h : WordKept host W w) {v : UInt64} (he : ReadsMemory W w (.callback p v)) :
    WordKept host W (settle p.req (progress (opsProgress host) p.req
      { w with inner := w.inner.completed p v })) := by
  obtain ⟨⟨-, hp, hr⟩, hread⟩ := he
  have hs := hw.queues.toStarted
  refine ⟨fun r => (h.1 r).callback v hs hp hr fun pause s hlife hps hreq => ?_, ?_⟩
  · subst hreq
    exact (callback_spec hrel hps v hlife pause).1
  obtain ⟨hlives, hword⟩ := h
  by_cases hc : W.client = p.req.client
  · intro hex
    obtain ⟨hrun, hfin⟩ := hs.counts hr
    have hlife := (hlives p.req).2
    rw [view, hrun, hfin] at hlife
    have heffect := (callback_spec hrel hp v hlife (w.pause p.req.client)).2 w.starts
    dsimp only at hread
    rw [hc] at hex hword hread ⊢
    rw [face_progress_self] at hex ⊢
    rw [face_completed] at heffect
    have hbefore := heffect.exclusive hex
    have hbefore : Exclusive W (face p.req.client w) :=
      ⟨hbefore.unpaused, hbefore.pointers, hbefore.data⟩
    have hstart : ∃ t ∈ (face p.req.client w).starts, t.req = p.req := by
      obtain ⟨t, ht, hreq⟩ := mem_map.mp (hs.perm.mem_iff.mpr (mem_append_left _ hr))
      exact ⟨t, mem_filter.mpr ⟨ht, by simp [hreq]⟩, hreq⟩
    refine WordInv.callback hreg (hword hbefore) hc.symm hstart (getsOf_completed hp v)
      (fun v' hv' => ?_) heffect hex
    unfold Pending.cause at hv'
    split at hv'
    · rename_i hkind
      cases hv'
      exact hread hkind
    · cases hv'
  · rw [face_progress_other host hc, face_completed_other hc]
    exact hword

theorem wordKept_idle (host : Host) (W : Word) : WordKept host W WState.idle := by
  refine ⟨fun r => ⟨fun _ => rfl, CallLife.unstarted host r⟩, fun _ => ?_⟩
  refine ⟨nodup_nil, fun _ he => (nomatch he), .inl rfl, fun _ _ hno => (nomatch hno),
    .inl ⟨fun _ hno => (nomatch hno), rfl⟩, fun _ hx => (nomatch hx), fun q hq => ?_⟩
  obtain ⟨before, later, running, hno, -⟩ := hq.last
  simp [face, Face.of, WState.idle, QState.idle] at hno

theorem reach_wordKept (hrel : Reliable host) (hreg : W.Registered host)
    (h : Reach (workerStep host) (ReadsMemory W) WState.idle w) : WInv w ∧ WordKept host W w :=
  worker_rule (fun _ _ he => he.1) (wordKept_keeps hrel hreg) .idle (wordKept_idle host W)
    (fun _ _ _ hw hj he => hj.callback hrel hreg hw he) h

end Runs

/-! ## Destinations in order -/

/-- The appends to a word and a flush: every destination is behind the appends started before, one for
    each append that is finished and knows its data key; they are disjoint unless the pointer wraps
    around; and behind a finished flush with no append to the word after it, the word in memory is the
    end of the data. -/
structure AppendsInOrder (host : Host) (W : Word) (w : WState) : Prop where
  placed : ∀ x ∈ w.inner.writes, W.names x.req = true → W.Placed (W.appends w.starts) x
  once : ∀ r ∈ W.appends w.starts, (writesOf r w.inner).length ≤ 1
  done : ∀ r ∈ W.appends w.starts, r ∈ w.finished → ∀ hdr, r.body.op = .append hdr →
    host.mkeys r.client hdr.dataRkey ≠ none → (writesOf r w.inner).length = 1
  disjoint : W.init.toNat + ((W.appends w.starts).map fun r => r.body.length.toNat).sum < 2 ^ 64 →
    ∀ x ∈ w.inner.writes, ∀ y ∈ w.inner.writes, W.names x.req = true → W.names y.req = true →
      x.req ≠ y.req → x.addr.toNat + x.len.toNat ≤ y.addr.toNat ∨ y.addr.toNat + y.len.toNat ≤ x.addr.toNat
  flushed : ∀ q ∈ w.finished, q.client = W.client → ∀ paused, W.LastFlush w.starts q paused →
    W.after (w.inner.rma W.client) = some (W.total (W.appends w.starts)) ∧
      ∃ pre post, w.inner.rma W.client = pre ++ .epFlush q :: post ∧
        W.after pre = some (W.total (W.appends w.starts))

section Order

variable {host : Host} {W : Word} {w : WState} {rs : List Request}

theorem Word.total_toNat (W : Word) : ∀ rs : List Request,
    W.init.toNat + (rs.map fun r => r.body.length.toNat).sum < 2 ^ 64 →
      (W.total rs).toNat = W.init.toNat + (rs.map fun r => r.body.length.toNat).sum := by
  intro rs
  induction rs using reverseRecOn with
  | nil => simp [Word.total]
  | append_singleton rs r ih =>
    intro hlt
    simp only [map_append, map_cons, map_nil, sum_append, sum_cons, sum_nil, Nat.add_zero] at hlt ⊢
    rw [W.total_append, UInt64.toNat_add, ih (by omega), Nat.mod_eq_of_lt (by omega)]
    omega

theorem Word.Placed.before {x y : Write} {A A' B B' : List Request} (hA : rs = A ++ x.req :: B)
    (hA' : rs = A' ++ y.req :: B') (hlt : A.length < A'.length)
    (hx : x.addr = W.total A) (hxl : x.len = x.req.body.length) (hy : y.addr = W.total A')
    (hfit : W.init.toNat + (rs.map fun r => r.body.length.toNat).sum < 2 ^ 64) :
    x.addr.toNat + x.len.toNat ≤ y.addr.toNat := by
  have hle : ∀ {P : List Request}, P <+: rs →
      (P.map fun r => r.body.length.toNat).sum ≤ (rs.map fun r => r.body.length.toNat).sum := by
    rintro P ⟨Q, rfl⟩
    simp
  have hpre : A ++ [x.req] <+: rs := ⟨B, by rw [hA]; simp⟩
  have hpre' : A' <+: rs := ⟨y.req :: B', hA'.symm⟩
  obtain ⟨Q, hQ⟩ := prefix_of_prefix_length_le hpre hpre'
    (by rw [length_append, length_singleton]; exact hlt)
  have hsum := hle hpre
  have hsum' := hle hpre'
  have hstep : ((A ++ [x.req]).map fun r => r.body.length.toNat).sum ≤
      (A'.map fun r => r.body.length.toNat).sum := by
    rw [← hQ]
    simp
  simp only [map_append, map_cons, map_nil, sum_append, sum_cons, sum_nil, Nat.add_zero] at hsum hstep
  rw [hx, hy, hxl, W.total_toNat A (by omega), W.total_toNat A' (by omega)]
  omega

theorem Word.Placed.disjoint {x y : Write} (hx : W.Placed rs x) (hy : W.Placed rs y) (hne : x.req ≠ y.req)
    (hfit : W.init.toNat + (rs.map fun r => r.body.length.toNat).sum < 2 ^ 64) :
    x.addr.toNat + x.len.toNat ≤ y.addr.toNat ∨ y.addr.toNat + y.len.toNat ≤ x.addr.toNat := by
  obtain ⟨A, B, hA, hx, hxl⟩ := hx
  obtain ⟨A', B', hA', hy, hyl⟩ := hy
  rcases Nat.lt_trichotomy A.length A'.length with hlt | heq | hgt
  · exact .inl (Word.Placed.before hA hA' hlt hx hxl hy hfit)
  · have hboth := append_inj (hA.symm.trans hA') heq
    rw [cons.injEq] at hboth
    exact absurd hboth.2.1 hne
  · exact .inr (Word.Placed.before hA' hA hgt hy hyl hx hfit)

theorem Word.appends_client (W : Word) (starts : List (Start Body)) :
    W.appends (starts.filter fun t => t.req.client = W.client) = W.appends starts := by
  unfold Word.appends
  induction starts with
  | nil => rfl
  | cons t rest ih =>
    rw [filter_cons]
    split
    · rw [map_cons, map_cons, filter_cons, filter_cons, ih]
    · rename_i hc
      have hother : W.names t.req = false := by
        refine Bool.eq_false_iff.mpr fun hnames => ?_
        obtain ⟨h, hop⟩ := Word.names_op hnames
        exact hc (by simpa using (Word.names_append hnames hop).1)
      rw [ih, map_cons, filter_cons, hother]
      rfl

theorem Word.LastFlush.client {starts : List (Start Body)} {q : Request} {paused : Bool}
    (h : W.LastFlush starts q paused) (hq : q.client = W.client) :
    W.LastFlush (starts.filter fun t => t.req.client = W.client) q paused := by
  obtain ⟨hop, before, later, running, rfl, hlater⟩ := h
  refine ⟨hop, before.filter fun t => t.req.client = W.client,
    later.filter fun t => t.req.client = W.client, running, ?_, fun u hu => ?_⟩
  · rw [filter_append, filter_cons, if_pos (by simpa using hq)]
  · exact hlater u (mem_of_mem_filter hu)

/-- **Appends to one pointer word are placed in order** in every run of a worker whose operations do not
    fail, if no append of the client, and no flush of it behind the last append to the word, starts while
    the client is paused, and nothing else writes to the word. -/
theorem appends_in_order (hrel : Reliable host) (hreg : W.Registered host)
    (h : Reach (workerStep host) (ReadsMemory W) WState.idle w) (hex : Exclusive W (face W.client w))
    (hfinal : ∀ q, q.client = W.client → ¬ W.LastFlush w.starts q true) : AppendsInOrder host W w := by
  obtain ⟨hw, hlives, hword⟩ := reach_wordKept hrel hreg h
  have hinv := hword hex
  have happends : W.appends (face W.client w).starts = W.appends w.starts := W.appends_client w.starts
  have hplaced : ∀ x ∈ w.inner.writes, W.names x.req = true → W.Placed (W.appends w.starts) x := by
    intro x hx hnames
    rw [← happends]
    obtain ⟨hdr, hop⟩ := Word.names_op hnames
    have hc := (Word.names_append hnames hop).1
    exact hinv.dests x (mem_filter.mpr ⟨hx, by simpa using hc⟩) hnames
  have hlife : ∀ r ∈ W.appends w.starts, ∃ hdr, r.body.op = .append hdr ∧ (∃ m,
      host.mkeys r.client hdr.ptrRkey = some m) ∧ AppendLife host hdr r (view r w) := by
    intro r hr
    obtain ⟨-, hnames⟩ := mem_filter.mp hr
    obtain ⟨hdr, hop⟩ := Word.names_op hnames
    obtain ⟨hclient, hrkey, -⟩ := Word.names_append hnames hop
    obtain ⟨m, hm, -⟩ := hreg.mkey
    have hcall := (hlives r).2
    simp only [CallLife, hop] at hcall
    exact ⟨hdr, hop, ⟨m, by rw [hclient, hrkey, hm]⟩, hcall⟩
  refine ⟨hplaced, fun r hr => ?_, fun r hr hfin hdr hop hknown => ?_, fun hfit x hx y hy hnx hny hne =>
    (hplaced x hx hnx).disjoint (hplaced y hy hny) hne hfit, fun q _ hclient paused hq => ?_⟩
  · obtain ⟨hdr, -, -, hcall⟩ := hlife r hr
    exact hcall.one
  · obtain ⟨hdr', hop', ⟨m, hm⟩, hcall⟩ := hlife r hr
    rw [hop] at hop'
    cases hop'
    have hcount := hw.queues.toStarted.finished hfin
    rcases hcall.done hcount with hone | hno | hno
    · exact hone
    · rw [hno] at hm
      cases hm
    · exact absurd hno hknown
  · have hpaused : paused = false := by
      refine Bool.eq_false_iff.mpr ?_
      rintro rfl
      exact hfinal q hclient hq
    subst hpaused
    have hfl := hinv.flushed q (hq.client hclient)
    obtain ⟨pre, post, hlog, hval⟩ := hfl.memory
    rw [happends] at hval
    refine ⟨?_, pre, post, hlog, hval⟩
    rcases hinv.pointer with hset | ⟨g, gs, hread⟩
    · have hcurrent := hset.current
      rw [happends] at hcurrent
      simp only [Word.current, hfl.miss] at hcurrent
      exact hcurrent
    · have hno := hfl.gets g hread.gets
      rw [hread.names] at hno
      cases hno

def lateHost : Host :=
  Host.plain lowRegion fun call _ =>
    match call with
    | .get => .inProgress
    | .put => .inProgress
    | _ => .ok

theorem lateHost_reliable : Reliable lateHost :=
  ⟨fun _ => rfl, fun _ => .inr rfl, fun _ => nofun, fun _ => .inl rfl,
    fun _ => rfl, fun _ => rfl, fun _ => rfl⟩

def lowWord : Word := ⟨0, 7, 4096, 5000⟩

theorem lowWord_registered : lowWord.Registered lateHost := ⟨⟨_, rfl, rfl⟩, rfl⟩

def appendMsg (x : UInt64) (flags : UInt32) : Msg :=
  ⟨0, 1, flags, 0, x, 0, ⟨4096, 7, 7⟩, ⟨[], by decide⟩, false, 8⟩

def appendReq (seq ep : Nat) (fence : Bool) : Request :=
  ⟨seq, 0, ep, fence, ⟨.append ⟨4096, 7, 7⟩, false, 8⟩⟩

def flushMsg (x : UInt64) : Msg := ⟨0, 0, 0, 0, x, 3, ⟨0, 0, 0⟩, ⟨[], by decide⟩, false, 0⟩

/-- Two appends over different endpoints and a flush: the second append and the flush wait for the Get of
    the first. -/
theorem appends_in_order_pair : ∃ w, Reach (workerStep lateHost) (ReadsMemory lowWord) WState.idle w ∧
      Exclusive lowWord (face 0 w) ∧ w.inner.writes.map Write.addr = [5000, 5008] ∧
      w.finished.map Req.seq = [2, 0] ∧ AppendsInOrder lateHost lowWord w := by
  have hunpaused : ∀ {starts : List (Start Body)}, (∀ t ∈ starts, t.paused = false) →
      ∀ q, q.client = lowWord.client → ¬ lowWord.LastFlush starts q true := by
    rintro starts hall q - ⟨-, before, later, running, rfl, -⟩
    cases hall _ mem_append_cons_self
  have hreach : Reach (workerStep lateHost) (ReadsMemory lowWord) WState.idle _ :=
    .of_run (l := [.message (appendMsg 0 0) true, .message (appendMsg 1 0) true,
      .message (flushMsg 2) true, .callback ⟨appendReq 0 0 false, .get⟩ 5000,
      .callback ⟨appendReq 0 0 false, .put⟩ 0]) .init rfl
  exact ⟨_, hreach, by decide, by decide, by decide,
    appends_in_order lateHost_reliable lowWord_registered hreach (by decide) (hunpaused (by decide))⟩

/-- **A fenced append that is started while its client is paused reads the pointer a second time, and
    its data overwrites that of the append before it.** -/
theorem appends_overlap : ∃ w, Reach (workerStep lateHost) (ReadsMemory lowWord) WState.idle w ∧
      (lowWord.appends w.starts).map Req.seq = [2, 1] ∧
      (w.inner.writes.filter fun x => lowWord.names x.req).map (fun x => (x.req.seq, x.addr, x.len)) =
        [(2, 5000, 8), (1, 5000, 8)] ∧
      ¬ AppendsInOrder lateHost lowWord w := by
  refine ⟨_, .of_run (l := [.message (scatterMsg 0 1 ⟨[⟨4200, 7, 16⟩], by decide⟩ false) true,
    .message (appendMsg 1 1) true, .message (appendMsg 0 0) true,
    .callback ⟨⟨0, 0, 1, false, ⟨.scatter ⟨[⟨4200, 7, 16⟩], by decide⟩, false, 0⟩⟩, .scatterPut⟩ 0,
    .callback ⟨appendReq 2 0 false, .get⟩ 5000, .callback ⟨appendReq 1 1 true, .get⟩ 5000]) .init rfl,
    by decide, by decide, fun h => ?_⟩
  exact absurd (h.disjoint (by decide)) (by decide)

end Order

end Doca.Rdmo
