import Mathlib.Data.List.Perm.Subperm
import VcuCodec.LinkedQueues

/-!
# Mail queues of the kernel driver

The list of a mail queue (`common/al_list.c`, `common/al_queue.c`) is pushed to by
`handle_mail` (`common/al_group.c`) and popped by the users.  Each list object is
allocated, and the allocation may fail.
-/

namespace VcuCodec.MailQueues

open LinkedQueues

variable {Mail : Type}

/-! ## The code -/

/-- `struct al5_list`. -/
structure ListCell (Mail : Type) where
  mail : Mail
  next : Option ℕ

/-- `struct al5_queue`, the memory of its list objects, which are named in the order of
their allocation, and what was given to `al5_free_mail`. -/
structure MailQueue (Mail : Type) where
  list : Option ℕ
  cells : ℕ → Option (ListCell Mail)
  allocated : ℕ
  freed : List Mail

namespace MailQueue

/-- `al5_queue_init`. -/
def init : MailQueue Mail := ⟨none, fun _ => none, 0, []⟩

/-- The loop of `al5_list_push` that moves to the last object. -/
def lastFrom (cells : ℕ → Option (ListCell Mail)) : (fuel : ℕ) → ℕ → Option ℕ
  | 0, _ => none
  | fuel + 1, i => do
    let cell ← cells i
    match cell.next with
    | some j => lastFrom cells fuel j
    | none => return i

/-- `al5_list_push`, called by `al5_queue_push`; `false` stands for `-ENOMEM`. -/
def push (q : MailQueue Mail) (mail : Mail) (kmalloc : Bool) : Option (Bool × MailQueue Mail) :=
  match q.list with
  | none =>
    if kmalloc then
      some (true, { q with
        list := some q.allocated
        cells := Function.update q.cells q.allocated (some ⟨mail, none⟩)
        allocated := q.allocated + 1 })
    else some (false, q)
  | some firstPos => do
    let l ← lastFrom q.cells (q.allocated + 1) firstPos
    let last ← q.cells l
    if kmalloc then
      return (true, { q with
        list := some firstPos
        cells := Function.update (Function.update q.cells l (some { last with next := some q.allocated }))
          q.allocated (some ⟨mail, none⟩)
        allocated := q.allocated + 1 })
    -- the head is not put back
    else return (false, { q with
      list := some l
      cells := Function.update q.cells l (some { last with next := none }) })

/-- `al5_list_pop`, called by `al5_queue_pop`. -/
def pop (q : MailQueue Mail) : Option (Option Mail × MailQueue Mail) :=
  match q.list with
  | none => some (none, q)
  | some l => do
    let cell ← q.cells l
    return (some cell.mail, { q with list := cell.next, cells := Function.update q.cells l none })

def freeMail (q : MailQueue Mail) (mail : Mail) : MailQueue Mail := { q with freed := q.freed ++ [mail] }

end MailQueue

/-- What `handle_mail` does with a mail: it prints a trace, finds no user for it, or
delivers it to its user with an allocation that may fail. -/
inductive Delivery
  | trace
  | noUser
  | user (kmalloc : Bool)

/-- What happens at a queue. -/
inductive Op (Mail : Type)
  | mail (mail : Mail) (delivery : Delivery)
  | pop

namespace MailQueue

def handleMail (q : MailQueue Mail) (mail : Mail) : Delivery → Option (MailQueue Mail)
  | .trace => some (q.freeMail mail)
  | .noUser => some (q.freeMail mail)
  | .user kmalloc => do
    let (_, q') ← q.push mail kmalloc
    -- a memory shortage is only reported
    return q'

def step (q : MailQueue Mail) : Op Mail → Option (MailQueue Mail)
  | .mail mail delivery => q.handleMail mail delivery
  | .pop => q.pop.map Prod.snd

/-! ## What is claimed -/

/-- Every pop gets the oldest mail of those whose push returned 0 and that were not popped
yet, and a push that fails leaves the queue as it was. -/
def QueueLaw : MailQueue Mail → (pending : List Mail) → List (Op Mail) → Prop
  | _, _, [] => True
  | q, pending, .pop :: ops => ∃ q', q.pop = some (pending.head?, q') ∧ QueueLaw q' pending.tail ops
  | q, pending, .mail m (.user kmalloc) :: ops => ∃ ok q', q.push m kmalloc = some (ok, q') ∧
      (ok = true → QueueLaw q' (pending ++ [m]) ops) ∧
      (ok = false → q' = q ∧ QueueLaw q' pending ops)
  | q, pending, .mail m .trace :: ops => QueueLaw (q.freeMail m) pending ops
  | q, pending, .mail m .noUser :: ops => QueueLaw (q.freeMail m) pending ops

/-- The step frees the mail it cannot push. -/
def Released (q : MailQueue Mail) : Op Mail → MailQueue Mail → Prop
  | .mail m (.user kmalloc), q' =>
    ∀ q'', q.push m kmalloc = some (false, q'') → q'.freed = q.freed ++ [m]
  | .mail _ .trace, _ => True
  | .mail _ .noUser, _ => True
  | .pop, _ => True

/-- The caller releases every mail whose push fails. -/
def ReleaseLaw : MailQueue Mail → List (Op Mail) → Prop
  | _, [] => True
  | q, op :: ops => ∃ q', q.step op = some q' ∧ q.Released op q' ∧ ReleaseLaw q' ops

/-! ## When it holds -/

def AtMostOne (q : MailQueue Mail) : Prop :=
  ∀ l cell, q.list = some l → q.cells l = some cell → cell.next = none

/-- An allocation only fails while there is at most one mail in the queue. -/
def FailsShort : MailQueue Mail → List (Op Mail) → Prop
  | _, [] => True
  | q, op :: ops => (∀ m, op = .mail m (.user false) → q.AtMostOne) ∧
      ∀ q', q.step op = some q' → FailsShort q' ops

end MailQueue

def NoneFails (ops : List (Op Mail)) : Prop := ∀ m, Op.mail m (.user false) ∉ ops

namespace MailQueue

def next (q : MailQueue Mail) (i : ℕ) : Option ℕ := (q.cells i).bind (·.next)

/-- The list objects `ids` hold the mails. -/
structure Holds (q : MailQueue Mail) (ids : List ℕ) (mails : List Mail) : Prop where
  nodup : ids.Nodup
  head : q.list = ids.head?
  chained : Chained q.next ids
  mails : ids.map (fun i => (q.cells i).map (·.mail)) = mails.map some
  fresh : ∀ i ∈ ids, i < q.allocated

namespace Holds

variable {q : MailQueue Mail} {ids xs : List ℕ} {mails : List Mail} {i l : ℕ}

theorem cell (h : q.Holds ids mails) (hi : i ∈ ids) : ∃ cell, q.cells i = some cell := by
  have hmem : (q.cells i).map (·.mail) ∈ mails.map some := by
    rw [← h.mails]
    exact List.mem_map_of_mem hi
  obtain ⟨m, -, hm⟩ := List.mem_map.mp hmem
  obtain ⟨cell, hcell, -⟩ := Option.map_eq_some_iff.mp hm.symm
  exact ⟨cell, hcell⟩

theorem length_le (h : q.Holds ids mails) : ids.length ≤ q.allocated := by
  have hsub : ids ⊆ List.range q.allocated := fun i hi => List.mem_range.mpr (h.fresh i hi)
  have hle := (List.subperm_of_subset h.nodup hsub).length_le
  rwa [List.length_range] at hle

end Holds

theorem lastFrom_eq {cells : ℕ → Option (ListCell Mail)} {i l : ℕ} {xs : List ℕ}
    (h : Chained (fun i => (cells i).bind (·.next)) (xs ++ [l]))
    (hcell : ∀ i ∈ xs ++ [l], ∃ cell, cells i = some cell) {fuel : ℕ} (hfuel : xs.length < fuel)
    (hi : (xs ++ [l]).head? = some i) : lastFrom cells fuel i = some l := by
  induction xs generalizing i fuel with
  | nil =>
    obtain rfl : l = i := Option.some.inj hi
    obtain ⟨cell, hc⟩ := hcell l (by simp)
    have hnext : cell.next = none := by simpa [hc] using h.1
    cases fuel with
    | zero => omega
    | succ fuel => simp [lastFrom, hc, hnext]
  | cons x xs ih =>
    obtain rfl : x = i := Option.some.inj hi
    rw [List.cons_append, List.forall_mem_cons] at hcell
    obtain ⟨cell, hc⟩ := hcell.1
    rw [List.length_cons] at hfuel
    have hnext : cell.next = (xs ++ [l]).head? := by simpa [hc] using h.1
    obtain ⟨j, hj⟩ : ∃ j, (xs ++ [l]).head? = some j := by
      cases xs with
      | nil => exact ⟨l, rfl⟩
      | cons y xs => exact ⟨y, rfl⟩
    cases fuel with
    | zero => omega
    | succ fuel =>
      have hrest := ih h.2 hcell.2 (by omega : xs.length < fuel) hj
      rw [lastFrom, hc]
      simpa [hnext, hj] using hrest

theorem holds_init : (init : MailQueue Mail).Holds [] [] :=
  ⟨List.nodup_nil, rfl, trivial, rfl, by simp⟩

section Runs

variable {q q' : MailQueue Mail} {ids : List ℕ} {mails : List Mail} {m : Mail} {ok kmalloc : Bool}

theorem Holds.freeMail (h : q.Holds ids mails) (m : Mail) : (q.freeMail m).Holds ids mails :=
  ⟨h.nodup, h.head, h.chained, h.mails, h.fresh⟩

theorem Holds.last {xs : List ℕ} {l : ℕ} (h : q.Holds (xs ++ [l]) mails) {i : ℕ}
    (hi : q.list = some i) :
    lastFrom q.cells (q.allocated + 1) i = some l ∧ ∃ m, q.cells l = some ⟨m, none⟩ := by
  have hlen := h.length_le
  rw [List.length_append, List.length_singleton] at hlen
  constructor
  · exact lastFrom_eq h.chained (fun i hi => h.cell hi) (by omega) (h.head.symm.trans hi)
  · obtain ⟨cell, hcell⟩ := h.cell (List.mem_append_right xs (List.mem_singleton_self l))
    have hnext : q.next l = none := by
      have hc := h.chained
      clear h hi hlen
      induction xs with
      | nil => exact hc.1
      | cons x xs ih => exact ih hc.2
    have hcn : cell.next = none := by simpa [next, hcell] using hnext
    exact ⟨cell.mail, by rw [hcell, ← hcn]⟩

/-- The queue with one more object behind the objects it holds. -/
theorem Holds.concat (h : q.Holds ids mails) (m : Mail) (cells : ℕ → Option (ListCell Mail))
    (hnew : cells q.allocated = some ⟨m, none⟩)
    (hold : ∀ j ∈ ids, cells j = (q.cells j).map fun cell =>
      if ids.getLast? = some j then { cell with next := some q.allocated } else cell) :
    Holds ⟨(ids ++ [q.allocated]).head?, cells, q.allocated + 1, q.freed⟩ (ids ++ [q.allocated])
      (mails ++ [m]) where
  nodup := by
    refine List.Nodup.append h.nodup (List.nodup_singleton _) ?_
    rw [List.disjoint_singleton]
    exact fun hmem => absurd (h.fresh _ hmem) (Nat.lt_irrefl _)
  head := rfl
  chained := by
    refine h.chained.concat h.nodup ?_ ?_
    · simp [next, hnew]
    · intro j hj
      obtain ⟨cell, hcell⟩ := h.cell hj
      simp only [next, hold j hj, hcell, Option.map_some, Option.bind_some]
      split_ifs <;> rfl
  mails := by
    rw [List.map_append, List.map_append, List.map_singleton, List.map_singleton, ← h.mails]
    congr 1
    · apply List.map_congr_left
      intro j hj
      obtain ⟨cell, hcell⟩ := h.cell hj
      simp only [hold j hj, hcell, Option.map_some]
      split_ifs <;> rfl
    · simp only [hnew, Option.map_some]
  fresh := by
    intro i hi
    rw [List.mem_append, List.mem_singleton] at hi
    rcases hi with hi | rfl
    · exact Nat.lt_succ_of_lt (h.fresh i hi)
    · exact Nat.lt_succ_self _

theorem Holds.push (h : q.Holds ids mails) (m : Mail) :
    ∃ q', q.push m true = some (true, q') ∧ q'.Holds (ids ++ [q.allocated]) (mails ++ [m]) := by
  rcases List.eq_nil_or_concat' ids with rfl | ⟨xs, l, rfl⟩
  · have hlist : q.list = none := h.head
    refine ⟨_, by rw [MailQueue.push, hlist]; rfl, h.concat m _ ?_ ?_⟩
    · exact Function.update_self ..
    · simp
  · have hlist : q.list = (xs ++ [l]).head? := h.head
    obtain ⟨i, hi⟩ : ∃ i, (xs ++ [l]).head? = some i := Option.isSome_iff_exists.mp (by simp)
    rw [hi] at hlist
    obtain ⟨hlast, last, hl⟩ := h.last hlist
    have hne : ∀ j ∈ xs ++ [l], j ≠ q.allocated := fun j hj => Nat.ne_of_lt (h.fresh j hj)
    have hhead : (xs ++ [l] ++ [q.allocated]).head? = some i := by
      rw [List.head?_append, hi, Option.some_or]
    have hq := h.concat m (Function.update (Function.update q.cells l
      (some ⟨last, some q.allocated⟩)) q.allocated (some ⟨m, none⟩)) (Function.update_self ..) ?_
    · rw [hhead] at hq
      exact ⟨_, by simp [MailQueue.push, hlist, hlast, hl], hq⟩
    · intro j hj
      rw [Function.update_of_ne (hne j hj), List.getLast?_concat]
      by_cases hjl : l = j
      · rw [← hjl, Function.update_self, hl]
        simp
      · rw [Function.update_of_ne (Ne.symm hjl)]
        simp [hjl]

theorem Holds.atMostOne_iff (h : q.Holds ids mails) : q.AtMostOne ↔ ids.tail = [] := by
  cases ids with
  | nil => simp [AtMostOne, h.head]
  | cons i ids =>
    have hlist : q.list = some i := h.head
    obtain ⟨cell, hcell⟩ := h.cell (List.mem_cons_self ..)
    have hnext : cell.next = ids.head? := by simpa [next, hcell] using h.chained.1
    rw [List.tail_cons, ← List.head?_eq_none_iff, ← hnext]
    constructor
    · exact fun hone => hone i cell hlist hcell
    · intro hn l cell' hl hcell'
      obtain rfl : i = l := Option.some.inj (hlist.symm.trans hl)
      rw [hcell] at hcell'
      rwa [← Option.some.inj hcell']

/-- A push that fails leaves the list at its last object. -/
theorem Holds.push_fail (h : q.Holds ids mails) (m : Mail) :
    ∃ q', q.push m false = some (false, q') ∧ q'.freed = q.freed ∧ (q' = q ↔ q.AtMostOne) := by
  rw [h.atMostOne_iff]
  rcases List.eq_nil_or_concat' ids with rfl | ⟨xs, l, rfl⟩
  · have hlist : q.list = none := h.head
    exact ⟨q, by simp [MailQueue.push, hlist], rfl, by simp⟩
  · have hlist : q.list = (xs ++ [l]).head? := h.head
    obtain ⟨i, hi⟩ : ∃ i, (xs ++ [l]).head? = some i := Option.isSome_iff_exists.mp (by simp)
    obtain ⟨hlast, last, hl⟩ := h.last (hlist.trans hi)
    have hcells : Function.update q.cells l (some ⟨last, none⟩) = q.cells := by
      rw [← hl, Function.update_eq_self]
    refine ⟨{ q with list := some l }, by simp [MailQueue.push, hlist, hi, hlast, hl, hcells],
      rfl, ?_⟩
    have heq : { q with list := some l } = q ↔ q.list = some l :=
      ⟨fun he => (congrArg MailQueue.list he).symm, fun he => by rw [← he]⟩
    rw [heq, hlist]
    cases xs with
    | nil => simp
    | cons x xs =>
      have hne : x ≠ l := by
        have hnodup := h.nodup
        rw [List.cons_append, List.nodup_cons] at hnodup
        rintro rfl
        exact hnodup.1 (List.mem_append_right xs (List.mem_singleton_self x))
      simp [hne]

theorem Holds.pop (h : q.Holds ids mails) :
    ∃ q', q.pop = some (mails.head?, q') ∧ q'.Holds ids.tail mails.tail := by
  cases ids with
  | nil =>
    have hlist : q.list = none := h.head
    obtain rfl : mails = [] := by simpa using h.mails.symm
    exact ⟨q, by simp [MailQueue.pop, hlist], h⟩
  | cons i ids =>
    have hlist : q.list = some i := h.head
    obtain ⟨cell, hcell⟩ := h.cell (List.mem_cons_self ..)
    have hmails := h.mails
    rw [List.map_cons, hcell] at hmails
    cases mails with
    | nil => cases hmails
    | cons m mails =>
      rw [List.map_cons, List.cons.injEq, Option.map_some, Option.some.injEq] at hmails
      have hnodup := List.nodup_cons.mp h.nodup
      have hold : ∀ j ∈ ids, Function.update q.cells i none j = q.cells j := by
        intro j hj
        rw [Function.update_of_ne]
        rintro rfl
        exact hnodup.1 hj
      refine ⟨{ q with list := cell.next, cells := Function.update q.cells i none },
        by simp [MailQueue.pop, hlist, hcell, hmails.1], hnodup.2, ?_, ?_, ?_, ?_⟩
      · simpa [next, hcell] using h.chained.1
      · refine h.chained.2.congr fun j hj => ?_
        simp only [next, hold j hj]
      · rw [List.tail_cons, List.tail_cons, ← hmails.2]
        refine List.map_congr_left fun j hj => ?_
        simp only [hold j hj]
      · exact fun j hj => h.fresh j (List.mem_cons_of_mem i hj)

theorem queueLaw_iff (h : q.Holds ids mails) (ops : List (Op Mail)) :
    q.QueueLaw mails ops ↔ q.FailsShort ops := by
  induction ops generalizing q ids mails with
  | nil => simp [QueueLaw, FailsShort]
  | cons op ops ih =>
    cases op with
    | pop =>
      obtain ⟨q', hpop, hq'⟩ := h.pop
      simp [QueueLaw, FailsShort, step, hpop, ih hq']
    | mail m delivery =>
      cases delivery with
      | trace => simp [QueueLaw, FailsShort, step, handleMail, ih (h.freeMail m)]
      | noUser => simp [QueueLaw, FailsShort, step, handleMail, ih (h.freeMail m)]
      | user kmalloc =>
        cases kmalloc with
        | true =>
          obtain ⟨q', hpush, hq'⟩ := h.push m
          simp [QueueLaw, FailsShort, step, handleMail, hpush, ih hq']
        | false =>
          obtain ⟨q', hpush, -, hsame⟩ := h.push_fail m
          by_cases hone : q.AtMostOne
          · rw [hsame.mpr hone] at hpush
            simp [QueueLaw, FailsShort, step, handleMail, hpush, hone, ih h]
          · simp [QueueLaw, FailsShort, step, handleMail, hpush, hone, hsame]

theorem noneFails_cons (op : Op Mail) (ops : List (Op Mail)) :
    NoneFails (op :: ops) ↔ (∀ m, op ≠ .mail m (.user false)) ∧ NoneFails ops := by
  simp only [NoneFails, List.mem_cons, not_or, forall_and]
  simp only [ne_comm, ne_eq]

theorem releaseLaw_iff (h : q.Holds ids mails) (ops : List (Op Mail)) :
    q.ReleaseLaw ops ↔ NoneFails ops := by
  induction ops generalizing q ids mails with
  | nil => simp [ReleaseLaw, NoneFails]
  | cons op ops ih =>
    rw [noneFails_cons]
    cases op with
    | pop =>
      obtain ⟨q', hpop, hq'⟩ := h.pop
      simp [ReleaseLaw, Released, step, hpop, ih hq']
    | mail m delivery =>
      cases delivery with
      | trace => simp [ReleaseLaw, Released, step, handleMail, ih (h.freeMail m)]
      | noUser => simp [ReleaseLaw, Released, step, handleMail, ih (h.freeMail m)]
      | user kmalloc =>
        cases kmalloc with
        | true =>
          obtain ⟨q', hpush, hq'⟩ := h.push m
          simp [ReleaseLaw, Released, step, handleMail, hpush, ih hq']
        | false =>
          obtain ⟨q', hpush, hfreed, -⟩ := h.push_fail m
          simp [ReleaseLaw, Released, step, handleMail, hpush, hfreed]

theorem failsShort_of_noneFails (q : MailQueue Mail) {ops : List (Op Mail)} (h : NoneFails ops) :
    q.FailsShort ops := by
  induction ops generalizing q with
  | nil => trivial
  | cons op ops ih =>
    rw [noneFails_cons] at h
    exact ⟨fun m hop => absurd hop (h.1 m), fun q' _ => ih q' h.2⟩

end Runs

/-- The queue keeps its order as long as no push fails with two mails or more in it, and
no mail is lost as long as no push fails. -/
theorem mailQueue_runs (ops : List (Op Mail)) :
    ((init : MailQueue Mail).QueueLaw [] ops ↔ (init : MailQueue Mail).FailsShort ops) ∧
      ((init : MailQueue Mail).QueueLaw [] ops ∧ (init : MailQueue Mail).ReleaseLaw ops ↔
        NoneFails ops) := by
  rw [queueLaw_iff holds_init, releaseLaw_iff holds_init]
  exact ⟨Iff.rfl, and_iff_right_of_imp (failsShort_of_noneFails init)⟩

/-- The third of three mails is refused, and the first one is lost with it: the next pop gets
the second. -/
theorem not_mailQueue_runs :
    ¬ ((init : MailQueue ℕ).QueueLaw []
      [.mail 0 (.user true), .mail 1 (.user true), .mail 2 (.user false), .pop]) ∧
    ((((init : MailQueue ℕ).step (.mail 0 (.user true))).bind
      (·.step (.mail 1 (.user true)))).bind (·.step (.mail 2 (.user false)))).bind
        (fun q => q.pop.map Prod.fst) = some (some 1) := by
  constructor
  · simp [QueueLaw, push, pop, init, lastFrom]
  · decide

end MailQueue

end VcuCodec.MailQueues
