import VcuCodec.EncCmdLists
import Mathlib.Algebra.Order.BigOperators.Group.List
import Mathlib.Algebra.Order.Group.Nat

/-!
# The queue of commands of the encoder

From `exe_encoder/EncCmdMngr.cpp`: `Refill` reads commands up to the look-ahead,
and `Process` announces the scene change at the end of the queue and delivers the
command at its front.
-/

namespace VcuCodec.EncCmd

open AheadWindows

/-- The calls to `ICommandsSender`. -/
inductive Call
  | notifySceneChange (lookAhead : ℤ)
  | notifyIsLongTerm
  | notifyUseLongTerm
  | restartGop
  | setGopLength (gopLength : ℤ)
  | setNumB (numB : ℤ)
  | setFreqIDR (freqIDR : ℤ)
  | setFrameRate (frameRate clockRatio : ℤ)
  | setBitRate (bitRate : ℤ)
  | setQPBounds (iMinQP iMaxQP : ℤ)
  | setQPIPDelta (iQPDelta : ℤ)
  | setQPPBDelta (iQPDelta : ℤ)
  | setQP (qp : ℤ)
  | setDynamicInput (iInputIdx : ℤ)
  | setLFBetaOffset (iBetaOffset : ℤ)
  | setLFTcOffset (iTcOffset : ℤ)
  deriving DecidableEq

def callIf (b : Bool) (c : Call) : List Call := if b then [c] else []

/-- The calls for a command on time.  A long-term reference is used only where
there may be one. -/
def TFrmCmd.onTime (c : TFrmCmd) (hasLT : Bool) : List Call :=
  callIf (c.bUseLongTerm && hasLT) .notifyUseLongTerm ++
  callIf c.bIsLongTerm .notifyIsLongTerm ++
  callIf c.bKeyFrame .restartGop ++
  callIf c.bChangeGopLength (.setGopLength c.iGopLength) ++
  callIf c.bChangeGopNumB (.setNumB c.iGopNumB) ++
  callIf c.bChangeFreqIDR (.setFreqIDR c.iFreqIDR) ++
  callIf c.bChangeFrameRate (.setFrameRate c.iFrameRate c.iClkRatio) ++
  callIf c.bChangeBitRate (.setBitRate c.iBitRate) ++
  callIf c.bChangeQPBounds (.setQPBounds c.iMinQP c.iMaxQP) ++
  callIf c.bChangeIPDelta (.setQPIPDelta c.iIPDelta) ++
  callIf c.bChangePBDelta (.setQPPBDelta c.iPBDelta) ++
  callIf c.bChangeQP (.setQP c.iQP) ++
  callIf c.bChangeResolution (.setDynamicInput c.iInputIdx) ++
  callIf c.bSetLFBetaOffset (.setLFBetaOffset c.iLFBetaOffset) ++
  callIf c.bSetLFTcOffset (.setLFTcOffset c.iLFTcOffset)

structure CEncCmdMngr where
  iLookAhead : ℤ
  iFreqLT : ℤ
  bHasLT : Bool
  reader : Reader
  cmds : List TFrmCmd
deriving DecidableEq

namespace CEncCmdMngr

/-- The condition of the second loop of `Refill`. -/
def Wants (m : CEncCmdMngr) (iCurFrame : ℤ) : Prop :=
  (m.cmds.length : ℤ) < m.iLookAhead ∧
    ∀ back ∈ m.cmds.getLast?, back.iFrame < iCurFrame + m.iLookAhead
deriving Decidable

/-- The second loop of `Refill`. -/
def fill (N : Atof) (m : CEncCmdMngr) (iCurFrame : ℤ) : Option CEncCmdMngr :=
  if _h : m.Wants iCurFrame then
    match m.reader.ReadNextCmd N with
    | none => none
    | some (r, c, true) => fill N { m with reader := r, cmds := m.cmds ++ [c] } iCurFrame
    | some (r, _, false) => some { m with reader := r }
  else some m
termination_by (m.iLookAhead - m.cmds.length).toNat
decreasing_by
  have := _h.1
  simp only [List.length_append, List.length_singleton, Nat.cast_add, Nat.cast_one]
  omega

def Refill (N : Atof) (m : CEncCmdMngr) (iCurFrame : ℤ) : Option CEncCmdMngr :=
  fill N { m with cmds := m.cmds.dropWhile (·.iFrame < iCurFrame) } iCurFrame

/-- The constructor. -/
def init (N : Atof) (file : List (List Char)) (iLookAhead iFreqLT : ℤ) : Option CEncCmdMngr :=
  Refill N ⟨iLookAhead, iFreqLT, false, ⟨[], file⟩, []⟩ 0

/-- `Process`, with the calls it makes. -/
def Process (N : Atof) (m : CEncCmdMngr) (iFrame : ℤ) : Option (CEncCmdMngr × List Call) :=
  match m.cmds.head?, m.cmds.getLast? with
  | some front, some back =>
    let isAhead := iFrame + m.iLookAhead = back.iFrame
    let isOnTime := iFrame = front.iFrame
    let announced := if isAhead ∧ back.bSceneChange then [.notifySceneChange m.iLookAhead] else []
    let m' := if isOnTime ∧ front.bIsLongTerm then { m with bHasLT := true } else m
    let calls := announced ++
      if isOnTime then front.onTime (m.iFreqLT ≠ 0 || m.bHasLT) else []
    if isAhead ∨ isOnTime then (Refill N m' (iFrame + 1)).map (·, calls) else some (m', calls)
  | _, _ => some (m, [])

/-- The first `n` frames, with the calls at each of them. -/
def frames (N : Atof) (file : List (List Char)) (iLookAhead iFreqLT : ℤ) :
    ℕ → Option (CEncCmdMngr × List (List Call))
  | 0 => (init N file iLookAhead iFreqLT).map (·, [])
  | n + 1 => (frames N file iLookAhead iFreqLT n).bind fun p =>
      (p.1.Process N n).map fun q => (q.1, p.2 ++ [q.2])

end CEncCmdMngr

/-! ### What is expected -/

/-- Some command in front of the frame `t` marks a long-term reference. -/
def ltBefore (N : Atof) (L : List (ℤ × List Token)) (t : ℤ) : Bool :=
  L.any fun l => l.1 < t && (frmCmd N L l.1).any (·.bIsLongTerm)

/-- The calls at the frame `t`: a scene change at the end of the look-ahead is
announced, and the command of the frame is delivered. -/
def expected (N : Atof) (file : List (List Char)) (la freqLT t : ℤ) : List Call :=
  callIf ((frmCmd N (cmdLines file) (t + la)).any (·.bSceneChange)) (.notifySceneChange la) ++
    match frmCmd N (cmdLines file) t with
    | none => []
    | some c => c.onTime (freqLT ≠ 0 || ltBefore N (cmdLines file) t)

/-- Every command comes at its frame, every scene change behind the first `la`
frames is announced, and the reader comes to the end of the file. -/
structure Delivers (N : Atof) (file : List (List Char)) (la freqLT : ℤ) : Prop where
  reached : ∀ l ∈ cmdLines file, ∃ t : ℕ, l.1 = t
  calls : ∀ n : ℕ, ∃ m, CEncCmdMngr.frames N file la freqLT n =
    some (m, (List.range n).map fun t : ℕ => expected N file la freqLT t)
  ends : ∃ n m calls, CEncCmdMngr.frames N file la freqLT n = some (m, calls) ∧
    m.reader.left = []

/-- What a command file has to be like: no frame number is negative, the first line
that is not empty has a word, no frame rate divides by zero, and some frame of the
look-ahead in front of a scene change has no command. -/
structure Deliverable (N : Atof) (file : List (List Char)) (la : ℤ) : Prop where
  nonneg : ∀ l ∈ cmdLines file, 0 ≤ l.1
  ready : Ready file
  divides : ∀ l ∈ cmdLines file, ∀ t ∈ l.2, ¬t.Divides N
  gap : ∀ l ∈ cmdLines file, la ≤ l.1 → (∃ t ∈ l.2, t.IsSC) →
    ∃ g, l.1 - la ≤ g ∧ g < l.1 ∧ ∀ l' ∈ cmdLines file, l'.1 ≠ g

/-! ### Reading -/

variable {N : Atof} {file : List (List Char)} {all cs : List TFrmCmd} {c : TFrmCmd}
  {la freqLT t : ℤ} {r : Reader} {m : CEncCmdMngr}

/-- The reader is going to yield the commands `cs`. -/
structure Yields (N : Atof) (r : Reader) (cs : List TFrmCmd) : Prop where
  ready : Ready r.left
  cmds : frmCmds N (cmdLines r.left) = some cs

theorem Yields.read_nil (h : Yields N r []) :
    ∃ r' : Reader, r'.left = [] ∧ r.ReadNextCmd N = some (r', {}, false) :=
  r.readCmd_last rfl h.ready (frmCmds_eq_nil h.cmds)

theorem Yields.read_cons (h : Yields N r (c :: cs)) :
    ∃ r' : Reader, Yields N r' cs ∧ (cs = [] → r'.left = []) ∧
      r.ReadNextCmd N = some (r', c, true) := by
  cases hL : cmdLines r.left with
  | nil =>
    have hcmds := h.cmds
    rw [hL, frmCmds_nil] at hcmds
    cases hcmds
  | cons l L =>
    obtain ⟨f, s⟩ := l
    have hcmds := h.cmds
    rw [hL] at hcmds
    obtain ⟨c', cs', hc, hcs, heq⟩ := frmCmds_cons_eq_some.1 hcmds
    obtain ⟨rfl, rfl⟩ := List.cons.inj heq
    obtain ⟨r', hready, hleft, hend, hread⟩ := Reader.readCmd_first (N := N) rfl h.ready hL {}
    rw [← hleft] at hcs
    refine ⟨r', ⟨hready, hcs⟩, ?_, ?_⟩
    · intro hnil
      rw [hnil] at hcs
      exact hend (frmCmds_eq_nil hcs)
    · rw [Reader.ReadNextCmd, hread, hc]
      rfl

theorem yields_of_left (h : r.left = []) : Yields N r [] where
  ready := h ▸ ready_nil
  cmds := by rw [h]; exact frmCmds_nil

namespace CEncCmdMngr

/-- The queue at the frame `t` holds what it may, and the reader stands behind it. -/
structure Queued (N : Atof) (all : List TFrmCmd) (t : ℤ) (m : CEncCmdMngr) (cs : List TFrmCmd) :
    Prop where
  yields : Yields N m.reader cs
  window : Window TFrmCmd.iFrame m.iLookAhead t all m.cmds cs

/-- `Refill` has nothing to add. -/
structure Ahead (N : Atof) (all : List TFrmCmd) (t : ℤ) (m : CEncCmdMngr) (cs : List TFrmCmd) :
    Prop extends Queued N all t m cs where
  filled : Filled TFrmCmd.iFrame m.iLookAhead t m.cmds cs
  ended : cs = [] → m.reader.left = []

/-- What the queue does not touch. -/
structure Keeps (m m' : CEncCmdMngr) : Prop where
  iLookAhead : m'.iLookAhead = m.iLookAhead
  iFreqLT : m'.iFreqLT = m.iFreqLT
  bHasLT : m'.bHasLT = m.bHasLT

theorem filled_of_not_wants (hle : (m.cmds.length : ℤ) ≤ m.iLookAhead) (h : ¬m.Wants t) :
    Filled TFrmCmd.iFrame m.iLookAhead t m.cmds cs := by
  rcases hle.eq_or_lt with heq | hlt
  · exact .inl heq
  · obtain ⟨back, hback, hle⟩ : ∃ back ∈ m.cmds.getLast?, t + m.iLookAhead ≤ back.iFrame := by
      by_contra hnone
      push Not at hnone
      exact h ⟨hlt, hnone⟩
    exact .inr (.inl ⟨back, hback, hle⟩)

/-- The loop of `Refill` fills the queue, and it comes to the end of the file when
it has read the last command. -/
theorem fill_spec (hall : Increasing TFrmCmd.iFrame all) (h : Queued N all t m cs)
    (hend : (cs = [] → m.reader.left = []) ∨ m.Wants t) :
    ∃ m' cs', m.fill N t = some m' ∧ Keeps m m' ∧ Ahead N all t m' cs' := by
  induction hk : (m.iLookAhead - m.cmds.length).toNat generalizing m cs with
  | zero =>
    have hnot : ¬m.Wants t := fun hw => by have := hw.1; omega
    refine ⟨m, cs, ?_, ⟨rfl, rfl, rfl⟩, h, filled_of_not_wants h.window.length_le hnot,
      hend.resolve_right hnot⟩
    rw [fill, dif_neg hnot]
  | succ k ih =>
    by_cases hw : m.Wants t
    · cases cs with
      | nil =>
        obtain ⟨r', hleft, hread⟩ := h.yields.read_nil
        refine ⟨{ m with reader := r' }, [], ?_, ⟨rfl, rfl, rfl⟩,
          ⟨yields_of_left hleft, h.window⟩, .inr (.inr rfl), fun _ => hleft⟩
        rw [fill, dif_pos hw, hread]
      | cons c cs =>
        obtain ⟨r', hyields, hlast, hread⟩ := h.yields.read_cons
        have hpush := h.window.push hall hw.1 hw.2
        have hlen := hw.1
        obtain ⟨m', cs', hfill, hkeeps, hahead⟩ :=
          ih (m := { m with reader := r', cmds := m.cmds ++ [c] }) ⟨hyields, hpush⟩ (.inl hlast) (by
            simp only [List.length_append, List.length_singleton, Nat.cast_add, Nat.cast_one]
            omega)
        refine ⟨m', cs', ?_, ⟨hkeeps.1, hkeeps.2, hkeeps.3⟩, hahead⟩
        rw [fill, dif_pos hw, hread]
        exact hfill
    · refine ⟨m, cs, ?_, ⟨rfl, rfl, rfl⟩, h, filled_of_not_wants h.window.length_le hw,
        hend.resolve_right hw⟩
      rw [fill, dif_neg hw]

theorem Ahead.refill (hall : Increasing TFrmCmd.iFrame all) (hla : 1 ≤ m.iLookAhead)
    (h : Ahead N all t m cs) :
    ∃ m' cs', m.Refill N (t + 1) = some m' ∧ Keeps m m' ∧ Ahead N all (t + 1) m' cs' := by
  have hpop : Queued N all (t + 1) { m with cmds := m.cmds.dropWhile (·.iFrame < t + 1) } cs :=
    ⟨h.yields, h.window.pop hall h.filled hla⟩
  obtain ⟨m', cs', hfill, hkeeps, hahead⟩ := fill_spec hall hpop (.inl h.ended)
  exact ⟨m', cs', hfill, ⟨hkeeps.1, hkeeps.2, hkeeps.3⟩, hahead⟩

/-- The state in front of the frame `t`. -/
structure At (N : Atof) (all : List TFrmCmd) (la freqLT t : ℤ) (m : CEncCmdMngr) : Prop where
  iLookAhead : m.iLookAhead = la
  iFreqLT : m.iFreqLT = freqLT
  bHasLT : m.bHasLT = all.any fun c => c.iFrame < t && c.bIsLongTerm
  ahead : ∃ cs, Ahead N all t m cs

theorem at_init (freqLT : ℤ) (hall : Increasing TFrmCmd.iFrame all) (hnonneg : ∀ c ∈ all, 0 ≤ c.iFrame)
    (hla : 1 ≤ la) (hyields : Yields N ⟨[], file⟩ all) :
    ∃ m, init N file la freqLT = some m ∧ At N all la freqLT 0 m := by
  let m0 : CEncCmdMngr := ⟨la, freqLT, false, ⟨[], file⟩, []⟩
  have hwants : m0.Wants 0 := by
    refine ⟨?_, fun back hback => by cases hback⟩
    rw [List.length_nil, Nat.cast_zero]
    exact hla
  have hqueued : Queued N all 0 m0 all := ⟨hyields, .start hla hnonneg⟩
  obtain ⟨m, cs, hfill, hkeeps, hahead⟩ := fill_spec hall hqueued (.inr hwants)
  have hlt : (all.any fun c => c.iFrame < 0 && c.bIsLongTerm) = false := by
    apply List.any_eq_false.2
    intro c hc hneg
    have := hnonneg c hc
    simp only [Bool.and_eq_true, decide_eq_true_eq] at hneg
    omega
  exact ⟨m, hfill, hkeeps.1, hkeeps.2, hkeeps.3.trans hlt.symm, cs, hahead⟩

/-- A scene change is announced at the frame `t`. -/
def Announces (all : List TFrmCmd) (la t : ℤ) : Prop :=
  ∃ c ∈ all, c.iFrame = t + la ∧ c.bSceneChange = true ∧
    ∃ g, t ≤ g ∧ g < t + la ∧ ∀ c' ∈ all, c'.iFrame ≠ g

/-- Some command in front of the frame `t` marks a long-term reference. -/
def hasLT (all : List TFrmCmd) (t : ℤ) : Bool := all.any fun c => c.iFrame < t && c.bIsLongTerm

/-- The calls for the command of the frame `t`. -/
def delivered (all : List TFrmCmd) (freqLT t : ℤ) : List Call :=
  match all.find? (·.iFrame = t) with
  | none => []
  | some c => c.onTime (freqLT ≠ 0 || hasLT all t)

theorem find?_eq_some_iff (hall : Increasing TFrmCmd.iFrame all) :
    all.find? (·.iFrame = t) = some c ↔ c ∈ all ∧ c.iFrame = t := by
  constructor
  · intro h
    exact ⟨List.mem_of_find?_eq_some h, by simpa using List.find?_some h⟩
  · rintro ⟨hc, ht⟩
    obtain ⟨c', hc'⟩ : ∃ c', all.find? (·.iFrame = t) = some c' := by
      apply Option.isSome_iff_exists.1
      exact List.find?_isSome.2 ⟨c, hc, decide_eq_true ht⟩
    have hframe : c'.iFrame = t := by simpa using List.find?_some hc'
    rw [hc', hall.eq_of_key (List.mem_of_find?_eq_some hc') hc (hframe.trans ht.symm)]

theorem delivered_of_none (h : ∀ c ∈ all, c.iFrame ≠ t) : delivered all freqLT t = [] := by
  have hnone : all.find? (·.iFrame = t) = none :=
    List.find?_eq_none.2 fun c hc he => h c hc (of_decide_eq_true he)
  rw [delivered, hnone]

theorem delivered_of_mem (hall : Increasing TFrmCmd.iFrame all) (hc : c ∈ all)
    (ht : c.iFrame = t) : delivered all freqLT t = c.onTime (freqLT ≠ 0 || hasLT all t) := by
  rw [delivered, (find?_eq_some_iff hall).2 ⟨hc, ht⟩]

theorem hasLT_succ_of_mem (hall : Increasing TFrmCmd.iFrame all) (hc : c ∈ all)
    (ht : c.iFrame = t) : hasLT all (t + 1) = (hasLT all t || c.bIsLongTerm) := by
  rw [Bool.eq_iff_iff, Bool.or_eq_true, hasLT, hasLT, List.any_eq_true, List.any_eq_true]
  simp only [Bool.and_eq_true, decide_eq_true_eq]
  constructor
  · rintro ⟨c', hc', hlt, hmark⟩
    rcases (Int.lt_add_one_iff.1 hlt).lt_or_eq with hlt | heq
    · exact .inl ⟨c', hc', hlt, hmark⟩
    · rw [hall.eq_of_key hc hc' (ht.trans heq.symm)]
      exact .inr hmark
  · rintro (⟨c', hc', hlt, hmark⟩ | hmark)
    · exact ⟨c', hc', by omega, hmark⟩
    · exact ⟨c, hc, by omega, hmark⟩

theorem hasLT_succ_of_none (h : ∀ c ∈ all, c.iFrame ≠ t) : hasLT all (t + 1) = hasLT all t := by
  rw [Bool.eq_iff_iff, hasLT, hasLT, List.any_eq_true, List.any_eq_true]
  simp only [Bool.and_eq_true, decide_eq_true_eq]
  constructor
  · rintro ⟨c, hc, hlt, hmark⟩
    have := h c hc
    exact ⟨c, hc, by omega, hmark⟩
  · rintro ⟨c, hc, hlt, hmark⟩
    exact ⟨c, hc, by omega, hmark⟩

/-- The last command in the queue is announced just when it is at the end of the
look-ahead, changes the scene, and some frame before it has no command. -/
theorem announces_iff {back : TFrmCmd} (hall : Increasing TFrmCmd.iFrame all)
    (hla : 1 ≤ m.iLookAhead) (h : Ahead N all t m cs) (hback : m.cmds.getLast? = some back) :
    t + m.iLookAhead = back.iFrame ∧ back.bSceneChange = true ↔ Announces all m.iLookAhead t := by
  have hmem : back ∈ all :=
    (h.window.mem_iff.1 (List.mem_append_left _ (List.mem_of_mem_getLast? hback))).1
  constructor
  · rintro ⟨hframe, hsc⟩
    exact ⟨back, hmem, hframe.symm, hsc,
      (h.window.last_iff hall h.filled hmem hframe.symm hla).1 hback⟩
  · rintro ⟨c, hc, hframe, hsc, hgap⟩
    have hlast := (h.window.last_iff hall h.filled hc hframe hla).2 hgap
    obtain rfl : back = c := Option.some.inj (hback.symm.trans hlast)
    exact ⟨hframe.symm, hsc⟩

theorem Ahead.none_left (hla : 1 ≤ m.iLookAhead) (h : Ahead N all t m cs) (hnil : m.cmds = []) :
    ∀ c ∈ all, c.iFrame < t := by
  have hfilled := h.filled
  have hwindow := h.window
  rw [hnil] at hfilled hwindow
  obtain rfl := Window.nil_of_filled hfilled hla
  intro c hc
  by_contra hle
  cases hwindow.mem_iff.2 ⟨hc, not_lt.1 hle⟩

theorem At.process (hall : Increasing TFrmCmd.iFrame all) (hla : 1 ≤ la)
    (h : At N all la freqLT t m) :
    ∃ m' b, m.Process N t =
        some (m', callIf b (.notifySceneChange la) ++ delivered all freqLT t) ∧
      (b = true ↔ Announces all la t) ∧ At N all la freqLT (t + 1) m' := by
  obtain ⟨rfl, rfl, hlt, cs, hahead⟩ := h
  cases hq : m.cmds with
  | nil =>
    have hnone := hahead.none_left hla hq
    have hne : ∀ c ∈ all, c.iFrame ≠ t := fun c hc => (hnone c hc).ne
    refine ⟨m, false, ?_, ?_, rfl, rfl, ?_, cs, ?_⟩
    · rw [Process, hq, delivered_of_none hne]
      rfl
    · refine iff_of_false (by decide) ?_
      rintro ⟨c, hc, hframe, -⟩
      have := hnone c hc
      omega
    · exact hlt.trans (hasLT_succ_of_none hne).symm
    · have hstay := hahead.window.stay hall hahead.filled hla
        (fun x hx => by rw [hq] at hx; cases hx) (fun x hx => by rw [hq] at hx; cases hx)
      exact ⟨⟨hahead.yields, hstay.1⟩, hstay.2, hahead.ended⟩
  | cons front q =>
    have hhead : m.cmds.head? = some front := by rw [hq]; rfl
    obtain ⟨back, hback⟩ : ∃ back, m.cmds.getLast? = some back := by
      apply Option.ne_none_iff_exists'.1
      rw [hq, ne_eq, List.getLast?_eq_none_iff]
      exact List.cons_ne_nil _ _
    let m' := if t = front.iFrame ∧ front.bIsLongTerm = true then { m with bHasLT := true } else m
    have hkeep : m'.iLookAhead = m.iLookAhead ∧ m'.iFreqLT = m.iFreqLT ∧ Ahead N all t m' cs := by
      by_cases hmark : t = front.iFrame ∧ front.bIsLongTerm = true
      · have hm' : m' = { m with bHasLT := true } := if_pos hmark
        rw [hm']
        exact ⟨rfl, rfl, ⟨hahead.yields, hahead.window⟩, hahead.filled, hahead.ended⟩
      · have hm' : m' = m := if_neg hmark
        rw [hm']
        exact ⟨rfl, rfl, hahead⟩
    have hmem : t = front.iFrame → front ∈ all := fun he =>
      ((hahead.window.head_iff hall hahead.filled hla).2 ⟨hhead, he.symm⟩).1
    have hnone : t ≠ front.iFrame → ∀ c ∈ all, c.iFrame ≠ t := by
      intro hne c hc he
      have hfront := ((hahead.window.head_iff hall hahead.filled hla).1 ⟨hc, he⟩).1
      obtain rfl := Option.some.inj (hhead.symm.trans hfront)
      exact hne he.symm
    have hhas : m'.bHasLT = hasLT all (t + 1) := by
      have hm' : m'.bHasLT = (m.bHasLT || (decide (t = front.iFrame) && front.bIsLongTerm)) := by
        by_cases hmark : t = front.iFrame ∧ front.bIsLongTerm = true
        · have hset : m' = { m with bHasLT := true } := if_pos hmark
          simp [hset, hmark.1, hmark.2]
        · have hset : m' = m := if_neg hmark
          by_cases he : t = front.iFrame
          · have hnot : front.bIsLongTerm = false := by
              rw [← Bool.not_eq_true]
              exact fun hl => hmark ⟨he, hl⟩
            simp [hset, hnot]
          · simp [hset, he]
      rw [hm', hlt]
      by_cases he : t = front.iFrame
      · rw [hasLT_succ_of_mem hall (hmem he) he.symm, decide_eq_true he, Bool.true_and]
        rfl
      · rw [hasLT_succ_of_none (hnone he), decide_eq_false he, Bool.false_and, Bool.or_false]
        rfl
    have hcalls : (if t + m.iLookAhead = back.iFrame ∧ back.bSceneChange = true then
          [Call.notifySceneChange m.iLookAhead] else []) ++
        (if t = front.iFrame then front.onTime (m.iFreqLT ≠ 0 || m.bHasLT) else []) =
        callIf (decide (t + m.iLookAhead = back.iFrame ∧ back.bSceneChange = true))
          (.notifySceneChange m.iLookAhead) ++ delivered all m.iFreqLT t := by
      have hfront : (if t = front.iFrame then front.onTime (m.iFreqLT ≠ 0 || m.bHasLT) else []) =
          delivered all m.iFreqLT t := by
        by_cases he : t = front.iFrame
        · rw [if_pos he, delivered_of_mem hall (hmem he) he.symm, hlt]
          rfl
        · rw [if_neg he, delivered_of_none (hnone he)]
      rw [hfront, callIf]
      by_cases hb : t + m.iLookAhead = back.iFrame ∧ back.bSceneChange = true
      · rw [if_pos hb, decide_eq_true hb, if_pos rfl]
      · rw [if_neg hb, decide_eq_false hb]
        rfl
    obtain ⟨hla', hfreq', hahead'⟩ := hkeep
    have hProcess : m.Process N t =
        if t + m.iLookAhead = back.iFrame ∨ t = front.iFrame then
          (m'.Refill N (t + 1)).map (·, callIf (decide (t + m.iLookAhead = back.iFrame ∧
            back.bSceneChange = true)) (.notifySceneChange m.iLookAhead) ++
              delivered all m.iFreqLT t)
        else some (m', callIf (decide (t + m.iLookAhead = back.iFrame ∧
            back.bSceneChange = true)) (.notifySceneChange m.iLookAhead) ++
              delivered all m.iFreqLT t) := by
      rw [← hcalls, Process, hhead, hback]
    have hann : decide (t + m.iLookAhead = back.iFrame ∧ back.bSceneChange = true) = true ↔
        Announces all m.iLookAhead t :=
      decide_eq_true_iff.trans (announces_iff hall hla hahead hback)
    by_cases hc : t + m.iLookAhead = back.iFrame ∨ t = front.iFrame
    · obtain ⟨m'', cs', hrefill, hkeeps, hahead''⟩ := hahead'.refill hall (hla' ▸ hla)
      refine ⟨m'', _, ?_, hann, hkeeps.1.trans hla', hkeeps.2.trans hfreq', hkeeps.3.trans hhas,
        cs', hahead''⟩
      rw [hProcess, if_pos hc, hrefill, Option.map_some]
    · have hnot := not_or.1 hc
      refine ⟨m', _, ?_, hann, hla', hfreq', hhas, cs, ?_⟩
      · rw [hProcess, if_neg hc]
      · have hm' : m' = m := if_neg fun hmark => hc (.inr hmark.1)
        have hstay := hahead.window.stay hall hahead.filled hla
          (fun x hx => by
            obtain rfl := Option.some.inj (hhead.symm.trans hx)
            exact fun he => hnot.2 he.symm)
          (fun x hx => by
            obtain rfl := Option.some.inj (hback.symm.trans hx)
            exact fun he => hnot.1 he.symm)
        rw [hm']
        exact ⟨⟨hahead.yields, hstay.1⟩, hstay.2, hahead.ended⟩

/-! ### Runs -/

/-- The frames of a run, from commands the reader yields. -/
theorem frames_at (freqLT : ℤ) (hall : Increasing TFrmCmd.iFrame all) (hnonneg : ∀ c ∈ all, 0 ≤ c.iFrame)
    (hla : 1 ≤ la) (hyields : Yields N ⟨[], file⟩ all) :
    ∃ b : ℕ → Bool, (∀ t : ℕ, b t = true ↔ Announces all la t) ∧
      ∀ n : ℕ, ∃ m, frames N file la freqLT n = some (m, (List.range n).map fun t : ℕ =>
        callIf (b t) (.notifySceneChange la) ++ delivered all freqLT t) ∧
          At N all la freqLT n m := by
  classical
  refine ⟨fun t => decide (Announces all la t), fun t => decide_eq_true_iff, ?_⟩
  intro n
  induction n with
  | zero =>
    obtain ⟨m, hinit, hat⟩ := at_init freqLT hall hnonneg hla hyields
    exact ⟨m, by rw [frames, hinit]; rfl, hat⟩
  | succ n ih =>
    obtain ⟨m, hframes, hat⟩ := ih
    obtain ⟨m', b, hprocess, hb, hat'⟩ := hat.process hall hla
    have hb' : b = decide (Announces all la n) := by
      rw [Bool.eq_iff_iff, hb, decide_eq_true_iff]
    refine ⟨m', ?_, by rw [Nat.cast_succ]; exact hat'⟩
    rw [frames, hframes, Option.bind_some, hprocess, Option.map_some, List.range_succ,
      List.map_append, hb']
    rfl

theorem frames_reader {Q : Reader → Prop} (hstart : Q ⟨[], file⟩)
    (hread : ∀ r p, Q r → r.ReadNextCmd N = some p → Q p.1) :
    ∀ n m calls, frames N file la freqLT n = some (m, calls) → Q m.reader := by
  have hfill (m m' : CEncCmdMngr) (t : ℤ) (h : Q m.reader) (hm : m.fill N t = some m') :
      Q m'.reader := by
    induction m using fill.induct N t with
    | case1 m hw hnone => 
      rw [fill, dif_pos hw, hnone] at hm
      cases hm
    | case2 m hw r c hsome ih =>
      rw [fill, dif_pos hw, hsome] at hm
      exact ih (hread _ _ h hsome) hm
    | case3 m hw r c hsome =>
      rw [fill, dif_pos hw, hsome] at hm
      obtain rfl := Option.some.inj hm
      exact hread _ _ h hsome
    | case4 m hw =>
      rw [fill, dif_neg hw] at hm
      obtain rfl := Option.some.inj hm
      exact h
  have hRefill (m m' : CEncCmdMngr) (t : ℤ) (h : Q m.reader) (hm : m.Refill N t = some m') :
      Q m'.reader := by
    rw [Refill] at hm
    exact hfill { m with cmds := m.cmds.dropWhile (·.iFrame < t) } _ _ h hm
  intro n
  induction n with
  | zero =>
    intro m calls h
    obtain ⟨m0, hm0, heq⟩ := Option.map_eq_some_iff.1 h
    obtain ⟨rfl, -⟩ := Prod.mk.inj heq
    exact hRefill _ _ _ hstart hm0
  | succ n ih =>
    intro m calls h
    rw [frames, Option.bind_eq_some_iff] at h
    obtain ⟨⟨m0, calls0⟩, h0, h⟩ := h
    obtain ⟨⟨m1, calls1⟩, h1, heq⟩ := Option.map_eq_some_iff.1 h
    obtain ⟨rfl, -⟩ := Prod.mk.inj heq
    have hQ := ih _ _ h0
    simp only [Process] at h1
    split at h1
    · next front back _ _ =>
      have hm' : Q (if (n : ℤ) = front.iFrame ∧ front.bIsLongTerm = true then
          { m0 with bHasLT := true } else m0).reader := by
        split
        · exact hQ
        · exact hQ
      split at h1
      · obtain ⟨m2, h2, heq⟩ := Option.map_eq_some_iff.1 h1
        obtain ⟨rfl, -⟩ := Prod.mk.inj heq
        exact hRefill _ _ _ hm' h2
      · obtain ⟨rfl, -⟩ := Prod.mk.inj (Option.some.inj h1)
        exact hm'
    · obtain ⟨rfl, -⟩ := Prod.mk.inj (Option.some.inj h1)
      exact hQ

/-- A line without a word in front of all frames stops the reader for good. -/
theorem stuck (h : ¬Ready file) {n : ℕ} {calls : List (List Call)}
    (hrun : frames N file la freqLT n = some (m, calls)) : m.reader.left ≠ [] := by
  have hread (r : Reader) (p : Reader × TFrmCmd × Bool) (hr : ¬Ready r.left)
      (hp : r.ReadNextCmd N = some p) : ¬Ready p.1.left := by
    obtain ⟨r', hr', hread'⟩ := Reader.readCmd_stuck (N := N) (c := {}) rfl hr
    obtain rfl := Option.some.inj (hread'.symm.trans hp)
    exact hr'
  have hkeep : ¬Ready m.reader.left :=
    frames_reader (Q := fun r => ¬Ready r.left) h hread n m calls hrun
  intro hleft
  exact hkeep (hleft ▸ ready_nil)

/-- A run that comes to the end of the file has not divided by zero. -/
theorem not_divides_of_end {n : ℕ} {calls : List (List Call)}
    (hrun : frames N file la freqLT n = some (m, calls)) (hend : m.reader.left = []) :
    ∀ l ∈ cmdLines file, ∀ t ∈ l.2, ¬t.Divides N := by
  let Q (r : Reader) : Prop := ∀ l ∈ cmdLines file, l ∈ cmdLines r.left ∨
    ∃ c1 c2, l.2.foldlM (set N) c1 = some c2
  have hstart : Q ⟨[], file⟩ := by
    intro l hl
    rw [Reader.left_mk_nil]
    exact .inl hl
  have hread (r : Reader) (p : Reader × TFrmCmd × Bool) (hr : Q r)
      (hp : r.ReadNextCmd N = some p) : Q p.1 := by
    intro l hl
    rcases hr l hl with hleft | hok
    · exact Reader.readCmd_consumed rfl hp l hleft
    · exact .inr hok
  intro l hl
  rcases frames_reader hstart hread n m calls hrun l hl with hleft | ⟨c1, c2, hok⟩
  · rw [hend] at hleft
    cases hleft
  · exact foldlM_set_iff.1 ⟨c2, hok⟩

end CEncCmdMngr

/-! ### What is expected, by the commands of the file -/

theorem frmCmd_eq_find? {L : List (ℤ × List Token)} (hord : Ordered L)
    (hcmds : frmCmds N L = some all) (g : ℤ) : frmCmd N L g = all.find? (·.iFrame = g) := by
  apply Option.ext
  intro c
  rw [frmCmd_iff hord hcmds, CEncCmdMngr.find?_eq_some_iff (increasing_frmCmds hord hcmds)]

theorem ltBefore_eq {L : List (ℤ × List Token)} (hord : Ordered L)
    (hcmds : frmCmds N L = some all) : ltBefore N L t = CEncCmdMngr.hasLT all t := by
  rw [Bool.eq_iff_iff, ltBefore, CEncCmdMngr.hasLT, List.any_eq_true, List.any_eq_true]
  simp only [Bool.and_eq_true, decide_eq_true_eq, Option.any_eq_true]
  constructor
  · rintro ⟨l, -, hlt, c, hc, hmark⟩
    obtain ⟨hmem, hframe⟩ := (frmCmd_iff hord hcmds).1 hc
    exact ⟨c, hmem, by rw [hframe]; exact hlt, hmark⟩
  · rintro ⟨c, hc, hlt, hmark⟩
    obtain ⟨l, hl, hframe⟩ := (frames_iff hcmds).1 ⟨c, hc, rfl⟩
    exact ⟨l, hl, hframe ▸ hlt, c, (frmCmd_iff hord hcmds).2 ⟨hc, hframe.symm⟩, hmark⟩

theorem expected_eq (hord : Ordered (cmdLines file)) (hcmds : frmCmds N (cmdLines file) = some all) :
    expected N file la freqLT t =
      callIf ((frmCmd N (cmdLines file) (t + la)).any (·.bSceneChange)) (.notifySceneChange la) ++
        CEncCmdMngr.delivered all freqLT t := by
  rw [expected, CEncCmdMngr.delivered, frmCmd_eq_find? hord hcmds t, ltBefore_eq hord hcmds]

theorem any_bSceneChange_iff (hord : Ordered (cmdLines file))
    (hcmds : frmCmds N (cmdLines file) = some all) :
    (frmCmd N (cmdLines file) (t + la)).any (·.bSceneChange) = true ↔
      ∃ l ∈ cmdLines file, l.1 = t + la ∧ ∃ t ∈ l.2, t.IsSC := by
  rw [Option.any_eq_true]
  constructor
  · rintro ⟨c, hc, hsc⟩
    exact (frmCmd_bSceneChange hc).1 hsc
  · rintro ⟨l, hl, hframe, hsc⟩
    obtain ⟨c, hc, hcf⟩ := (frames_iff hcmds).2 ⟨l, hl, hframe⟩
    have hcmd := (frmCmd_iff hord hcmds).2 ⟨hc, hcf⟩
    exact ⟨c, hcmd, (frmCmd_bSceneChange hcmd).2 ⟨l, hl, hframe, hsc⟩⟩

theorem announces_iff_lines (hord : Ordered (cmdLines file))
    (hcmds : frmCmds N (cmdLines file) = some all) :
    CEncCmdMngr.Announces all la t ↔
      (∃ l ∈ cmdLines file, l.1 = t + la ∧ ∃ t ∈ l.2, t.IsSC) ∧
        ∃ g, t ≤ g ∧ g < t + la ∧ ∀ l ∈ cmdLines file, l.1 ≠ g := by
  have hgap : ∀ g, (∀ c ∈ all, c.iFrame ≠ g) ↔ ∀ l ∈ cmdLines file, l.1 ≠ g := by
    intro g
    have := not_congr (frames_iff (g := g) hcmds)
    push Not at this
    exact this
  simp only [CEncCmdMngr.Announces, hgap]
  rw [← any_bSceneChange_iff hord hcmds, Option.any_eq_true]
  constructor
  · rintro ⟨c, hc, hframe, hsc, hg⟩
    exact ⟨⟨c, (frmCmd_iff hord hcmds).2 ⟨hc, hframe⟩, hsc⟩, hg⟩
  · rintro ⟨⟨c, hc, hsc⟩, hg⟩
    obtain ⟨hmem, hframe⟩ := (frmCmd_iff hord hcmds).1 hc
    exact ⟨c, hmem, hframe, hsc, hg⟩

theorem callIf_append_inj {b b' : Bool} {c : Call} {l : List Call}
    (h : callIf b c ++ l = callIf b' c ++ l) : b = b' := by
  have := List.append_cancel_right h
  cases b <;> cases b' <;> first | rfl | cases this

theorem Deliverable.yields (h : Deliverable N file la) :
    ∃ all, frmCmds N (cmdLines file) = some all ∧ Yields N ⟨[], file⟩ all ∧
      ∀ c ∈ all, 0 ≤ c.iFrame := by
  obtain ⟨all, hcmds⟩ := exists_frmCmds h.divides
  refine ⟨all, hcmds, ⟨?_, ?_⟩, ?_⟩
  · rw [Reader.left_mk_nil]
    exact h.ready
  · rwa [Reader.left_mk_nil]
  · intro c hc
    obtain ⟨l, hl, hframe⟩ := (frames_iff hcmds).1 ⟨c, hc, rfl⟩
    exact hframe ▸ h.nonneg l hl

/-- A command file is served as it should be just when its frames are not negative, a
word comes first, no frame rate divides by zero, and in front of every scene change
the look-ahead has a frame without a command. -/
theorem delivers_iff (hord : Ordered (cmdLines file)) (hla : 1 ≤ la) :
    Delivers N file la freqLT ↔ Deliverable N file la := by
  constructor
  · intro h
    obtain ⟨n, m, calls, hrun, hend⟩ := h.ends
    have hready : Ready file := by
      by_contra hnot
      exact CEncCmdMngr.stuck hnot hrun hend
    have hdivides := CEncCmdMngr.not_divides_of_end hrun hend
    have hnonneg : ∀ l ∈ cmdLines file, 0 ≤ l.1 := by
      intro l hl
      obtain ⟨t, ht⟩ := h.reached l hl
      omega
    obtain ⟨all, hcmds⟩ := exists_frmCmds hdivides
    have hyields : Yields N ⟨[], file⟩ all :=
      ⟨by rwa [Reader.left_mk_nil], by rwa [Reader.left_mk_nil]⟩
    have hall0 : ∀ c ∈ all, 0 ≤ c.iFrame := by
      intro c hc
      obtain ⟨l, hl, hframe⟩ := (frames_iff hcmds).1 ⟨c, hc, rfl⟩
      exact hframe ▸ hnonneg l hl
    obtain ⟨b, hb, hframes⟩ := CEncCmdMngr.frames_at freqLT
      (increasing_frmCmds hord hcmds) hall0 hla hyields
    refine ⟨hnonneg, hready, hdivides, ?_⟩
    intro l hl hle hsc
    -- the run announces what the file expects, at the frame that is `la` ahead
    obtain ⟨t, ht⟩ : ∃ t : ℕ, l.1 - la = t := ⟨(l.1 - la).toNat, by omega⟩
    have htla : l.1 = t + la := by omega
    obtain ⟨m1, h1⟩ := h.calls (t + 1)
    obtain ⟨m2, h2, -⟩ := hframes (t + 1)
    have hlists := (Prod.mk.inj (Option.some.inj (h1.symm.trans h2))).2
    have hcalls := List.map_inj_left.1 hlists t List.self_mem_range_succ
    rw [expected_eq hord hcmds] at hcalls
    have hannounced : b t = true := by
      rw [← callIf_append_inj hcalls, any_bSceneChange_iff hord hcmds]
      exact ⟨l, hl, htla, hsc⟩
    obtain ⟨-, g, hge, hlt, hmiss⟩ := (announces_iff_lines hord hcmds).1 ((hb t).1 hannounced)
    exact ⟨g, by omega, by omega, hmiss⟩
  · intro h
    obtain ⟨all, hcmds, hyields, hall0⟩ := h.yields
    obtain ⟨b, hb, hframes⟩ := CEncCmdMngr.frames_at freqLT
      (increasing_frmCmds hord hcmds) hall0 hla hyields
    refine ⟨?_, ?_, ?_⟩
    · intro l hl
      exact ⟨l.1.toNat, (Int.toNat_of_nonneg (h.nonneg l hl)).symm⟩
    · intro n
      obtain ⟨m, hrun, -⟩ := hframes n
      refine ⟨m, hrun.trans ?_⟩
      have hmap : ∀ t ∈ List.range n,
          callIf (b t) (.notifySceneChange la) ++ CEncCmdMngr.delivered all freqLT t =
            expected N file la freqLT t := by
        intro t _
        have hbt : b t = (frmCmd N (cmdLines file) (t + la)).any (·.bSceneChange) := by
          rw [Bool.eq_iff_iff, hb, announces_iff_lines hord hcmds, any_bSceneChange_iff hord hcmds]
          constructor
          · exact And.left
          · rintro ⟨l, hl, hframe, hsc⟩
            obtain ⟨g, hge, hlt, hmiss⟩ := h.gap l hl (by omega) hsc
            exact ⟨⟨l, hl, hframe, hsc⟩, g, by omega, by omega, hmiss⟩
        rw [expected_eq hord hcmds, hbt]
      rw [List.map_congr_left hmap]
    · -- behind the last command nothing is left
      obtain ⟨n, hn⟩ : ∃ n : ℕ, ∀ c ∈ all, c.iFrame < n := by
        refine ⟨(all.map fun c => c.iFrame.toNat).sum + 1, ?_⟩
        intro c hc
        have := List.single_le_sum (l := all.map fun c => c.iFrame.toNat) (by simp) _
          (List.mem_map_of_mem hc)
        omega
      obtain ⟨m, hrun, hat⟩ := hframes n
      obtain ⟨cs, hahead⟩ := hat.ahead
      refine ⟨n, m, _, hrun, hahead.ended ?_⟩
      apply List.eq_nil_iff_forall_not_mem.2
      intro c hc
      obtain ⟨hmem, hle⟩ := hahead.window.mem_iff.1 (List.mem_append_right _ hc)
      exact absurd (hn c hmem) (not_lt.2 hle)

/-- Values without a fraction. -/
def wholeNumbers : Atof := ⟨atoi, fun s => 1000 * atoi s⟩

/-- Blank lines between the commands do no harm. -/
def spacedFile : List (List Char) :=
  ["".toList, "0: KF".toList, " \r".toList, "0: QP=30".toList, "".toList, "2: SC, BR=4000".toList]

theorem delivers_spacedFile : Delivers wholeNumbers spacedFile 1 0 := by
  refine (delivers_iff (by decide +kernel) (by decide)).2 ⟨?_, ?_, ?_, ?_⟩
  · decide +kernel
  · decide +kernel
  · decide +kernel
  · have hgap : ∀ l ∈ cmdLines spacedFile, 1 ≤ l.1 → l.1 = 2 := by decide +kernel
    have hmiss : ∀ l' ∈ cmdLines spacedFile, l'.1 ≠ 1 := by decide +kernel
    intro l hl hle _
    have := hgap l hl hle
    exact ⟨1, by omega, by omega, hmiss⟩

/-- A blank line in front, and a scene change behind frames that all have commands. -/
theorem not_delivers :
    (Ordered (cmdLines [" \r".toList, "0: KF".toList]) ∧
      ¬Delivers wholeNumbers [" \r".toList, "0: KF".toList] 1 0) ∧
    (Ordered (cmdLines ["0: KF".toList, "1: SC".toList]) ∧
      ¬Delivers wholeNumbers ["0: KF".toList, "1: SC".toList] 1 0) := by
  refine ⟨⟨by decide +kernel, ?_⟩, by decide +kernel, ?_⟩
  · intro h
    obtain ⟨n, m, calls, hrun, hend⟩ := h.ends
    exact CEncCmdMngr.stuck (by decide +kernel) hrun hend
  · intro h
    obtain ⟨m, hm⟩ := h.calls 1
    have hcalls : (CEncCmdMngr.frames wholeNumbers ["0: KF".toList, "1: SC".toList] 1 0 1).map (·.2) =
        some [[.restartGop]] := by decide +kernel
    have hne : ((List.range 1).map fun t : ℕ =>
        expected wholeNumbers ["0: KF".toList, "1: SC".toList] 1 0 t) ≠ [[.restartGop]] := by
      decide +kernel
    rw [hm] at hcalls
    exact hne (Option.some.inj hcalls)

end VcuCodec.EncCmd
