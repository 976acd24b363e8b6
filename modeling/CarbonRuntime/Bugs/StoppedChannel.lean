import CarbonRuntime.Jobs.Sends

/-!
# A sent reply that stops the channel

`deliver` first finishes the claims of the replies that were sent and not recorded, of the whole
store, and lets what the records service refuses through (runtime/loop.ts:1928-1933). A refusal
is a fault of a tool, which ends the process (loop.ts:585-589); the next one finds the same reply
first. So whatever takes the claim away between `action_begin` and the finish, or makes it one
that cannot be recorded, stops all delivery: an observation of the client on the claim's track, a
reconciliation, a version that retires the step.

`deliver_goes`: where every other operation on the jobs leaves the claims of the replies so that
they can be finished, and the service answers, `deliver` raises nothing and records every reply
that was sent before it sends another.

Counterexample: the client cancels while the quote is being sent; every process that starts from
then on ends on the sent quote, and the reply behind it is never sent.
-/

open CarbonRuntime.Core CarbonRuntime.Stream

namespace CarbonRuntime.Bugs.StoppedChannel

open Records Jobs Teachings

section Runs

variable {js : Js} {s s' : Sends} {a : SendOp} {c : Claimed} {due : Option String}

/-- A claim that `deliver` is to finish, now or once its reply is sent, and the source that is
due. -/
def Watched (js : Js) (s : Sends) (c : Claimed) (due : Option String) : Prop :=
  c ∈ s.asking ∧ due = none ∨ ∃ r ∈ s.replies.rows, r.claim = some c ∧ r.recorded = false ∧
    (r.status.live = true ∧ due = none ∨ r.status = .sent ∧ due = some (r.proof js))

/-- The service answers, and no operation on the jobs takes from a watched claim what its finish
needs: neither one by another party nor the recording of another reply's action. -/
def Clean (js : Js) (s : Sends) : SendOp → Prop
  | .jobs op => ∀ c due, Watched js s c due → s.jobs.Leaves c due op
  | .claim ps job step cause owner m =>
    (∀ c due, Watched js s c due →
      s.jobs.Leaves c due (.begin ps job step cause "carbon-send" owner m)) ∧
      s.jobs.Unshared (.begin ps job step cause "carbon-send" owner m)
  | .note verified m => ∀ r c receipted first todo, s.phase = .finishing r c receipted first todo →
    ∀ c' due, Watched js s c' due → c' ≠ c →
      s.jobs.Leaves c' due (.record c.job c.step .observation (r.proof js) verified m)
  | .unanswered => False
  | _ => True

/-- The runs in which every step is clean. -/
def cleanSends (js : Js) : LTS Sends SendOp where
  init := (sends js).init
  step s a s' := (sends js).step s a s' ∧ Clean js s a

/-! ## What holds over a run -/

/-- What is left of a loop, and what of it is as it was found. -/
structure Listed (replies : Table Reply.messageId) (todo : List Reply) (status : Status) :
    Prop where
  apart : (todo.map (·.messageId)).Nodup
  found : ∀ r ∈ todo, r.status = status → r ∈ replies.rows

/-- The status of the records a loop is about. -/
def about (first : Bool) : Status := if first then .sent else .pending

def Placed (js : Js) (s : Sends) : Prop :=
  match s.phase with
  | .idle => True
  | .ended => False
  | .completing todo =>
    Listed s.replies todo .sent ∧ ∀ r ∈ s.replies.rows, r.owed = true → r ∈ todo
  | .sending todo => Listed s.replies todo .pending ∧ ∀ r ∈ s.replies.rows, r.owed = false
  | .finishing r c receipted first todo =>
    (r ∈ s.replies.rows ∧ r.owed = true ∧ r.claim = some c ∧
      (receipted = true → s.jobs.Receipted c (r.proof js))) ∧
    r.messageId ∉ todo.map (·.messageId) ∧ Listed s.replies todo (about first) ∧
    ∀ r' ∈ s.replies.rows, r'.owed = true → r' = r ∨ first = true ∧ r' ∈ todo

structure Holds (js : Js) (s : Sends) : Prop where
  inv : Jobs.Inv s.jobs
  channelled : s.jobs.db.Channelled
  ready : ∀ c due, Watched js s c due → s.jobs.Ready c due
  made : ∀ r ∈ s.replies.rows, ∀ c, r.claim = some c → c ∈ s.jobs.made
  asking : (s.asking.map (·.actionId)).Nodup
  apart : ∀ r ∈ s.replies.rows, ∀ c, r.claim = some c → ∀ c' ∈ s.asking, c'.actionId ≠ c.actionId
  single : ∀ r ∈ s.replies.rows, ∀ r' ∈ s.replies.rows, ∀ c c', r.claim = some c →
    r'.claim = some c' → c.actionId = c'.actionId → r = r'
  placed : Placed js s

theorem Holds.asked (h : Holds js s) (hc : c ∈ s.asking) : c ∈ s.jobs.made :=
  (h.ready c none (.inl ⟨hc, rfl⟩)).made

theorem owed_iff {r : Reply} :
    r.owed = true ↔ r.status = .sent ∧ r.claim.isSome = true ∧ r.recorded = false := by
  simp [Reply.owed, and_assoc]

/-- A step of the jobs that leaves the watched claims. -/
theorem Holds.jobs (h : Holds js s) {op : Op} {j : St} (hexec : s.jobs.exec op = .ok j)
    (hl : ∀ c due, Watched js s c due → s.jobs.Leaves c due op) :
    Holds js { s with jobs := j } where
  inv := inv_step h.inv hexec
  channelled := channelled_step h.channelled hexec
  ready c due hw := (h.ready c due hw).step h.inv hexec (hl c due hw)
  made r hr c hc := made_step hexec (h.made r hr c hc)
  asking := h.asking
  apart := h.apart
  single := h.single
  placed := by
    have hp := h.placed
    unfold Placed at hp ⊢
    cases hphase : s.phase with
    | finishing r c receipted first todo =>
      simp only [hphase] at hp ⊢
      obtain ⟨⟨hr, howed, hc, hreceipt⟩, hrest⟩ := hp
      exact ⟨⟨hr, howed, hc, fun hrec => (hreceipt hrec).step h.inv hexec⟩, hrest⟩
    | completing todo =>
      simp only [hphase] at hp ⊢
      exact hp
    | sending todo =>
      simp only [hphase] at hp ⊢
      exact hp
    | idle => trivial
    | ended => simp only [hphase] at hp

/-- What is sent or pending stays, and nothing is owed that was not. -/
structure Quiet (s s' : Sends) : Prop where
  phase : s'.phase = s.phase
  jobs : s'.jobs = s.jobs
  stays : ∀ r ∈ s.replies.rows, r.status = .sent ∨ r.status = .pending → r ∈ s'.replies.rows
  owed : ∀ r ∈ s'.replies.rows, r.owed = true → r ∈ s.replies.rows

theorem Placed.quiet (hp : Placed js s) (hq : Quiet s s') : Placed js s' := by
  have hlist : ∀ (first : Bool) {todo : List Reply}, Listed s.replies todo (about first) →
      Listed s'.replies todo (about first) := by
    intro first todo hl
    refine ⟨hl.apart, fun r hr hst => hq.stays r (hl.found r hr hst) ?_⟩
    cases first
    · exact .inr hst
    · exact .inl hst
  unfold Placed at hp ⊢
  rw [hq.phase]
  cases hphase : s.phase with
  | idle => trivial
  | ended => simp only [hphase] at hp
  | completing todo =>
    simp only [hphase] at hp ⊢
    exact ⟨hlist true hp.1, fun r hr howed => hp.2 r (hq.owed r hr howed) howed⟩
  | sending todo =>
    simp only [hphase] at hp ⊢
    refine ⟨hlist false hp.1, fun r hr => ?_⟩
    by_contra howed
    rw [Bool.not_eq_false] at howed
    rw [hp.2 r (hq.owed r hr howed)] at howed
    cases howed
  | finishing r c receipted first todo =>
    simp only [hphase] at hp ⊢
    obtain ⟨⟨hr, howed, hc, hreceipt⟩, hid, hl, hall⟩ := hp
    rw [hq.jobs]
    exact ⟨⟨hq.stays r hr (.inl (owed_iff.1 howed).1), howed, hc, hreceipt⟩, hid, hlist first hl,
      fun r' hr' ho => hall r' (hq.owed r' hr' ho) ho⟩

/-- One claim less that the reply tool writes for. -/
theorem Holds.less (h : Holds js s) {asking : List Claimed} (hsub : asking.Sublist s.asking) :
    Holds js { s with asking } where
  inv := h.inv
  channelled := h.channelled
  ready c due hw := h.ready c due (hw.imp_left fun ⟨hc, hd⟩ => ⟨hsub.subset hc, hd⟩)
  made := h.made
  asking := h.asking.sublist (hsub.map _)
  apart r hr c hc c' hc' := h.apart r hr c hc c' (hsub.subset hc')
  single := h.single
  placed := h.placed.quiet ⟨rfl, rfl, fun _ hr _ => hr, fun _ hr _ => hr⟩

/-- One claim more. -/
theorem Holds.more (h : Holds js s) (hr : s.jobs.Ready c none)
    (hnew : (∀ c' ∈ s.asking, c'.actionId ≠ c.actionId) ∧
      ∀ r ∈ s.replies.rows, ∀ c', r.claim = some c' → c.actionId ≠ c'.actionId) :
    Holds js { s with asking := c :: s.asking } where
  inv := h.inv
  channelled := h.channelled
  ready c' due hw := by
    rcases hw with ⟨hc, rfl⟩ | hw
    · rcases List.mem_cons.1 hc with rfl | hc
      · exact hr
      · exact h.ready c' none (.inl ⟨hc, rfl⟩)
    · exact h.ready c' due (.inr hw)
  made := h.made
  asking := by
    rw [List.map_cons, List.nodup_cons]
    refine ⟨fun hmem => ?_, h.asking⟩
    obtain ⟨c', hc', he⟩ := List.mem_map.1 hmem
    exact hnew.1 c' hc' he
  apart r hr' c₁ hc₁ c' hc' := by
    rcases List.mem_cons.1 hc' with rfl | hc'
    · exact hnew.2 r hr' c₁ hc₁
    · exact h.apart r hr' c₁ hc₁ c' hc'
  single := h.single
  placed := h.placed.quiet ⟨rfl, rfl, fun _ hr _ => hr, fun _ hr _ => hr⟩

/-- A reply written at its message: with the claim of the one that was there, or with one that was
asked for. -/
theorem Holds.put (h : Holds js s) {r' : Reply} {asking : List Claimed} {phase : Phase}
    (hsub : asking.Sublist s.asking)
    (hclaim : ∀ c, r'.claim = some c → (∀ c' ∈ asking, c'.actionId ≠ c.actionId) ∧
      ((∃ r ∈ s.replies.rows, r.messageId = r'.messageId ∧ r.claim = some c) ∨ c ∈ s.asking))
    (hready : ∀ c due, r'.claim = some c → r'.recorded = false →
      (r'.status.live = true ∧ due = none ∨ r'.status = .sent ∧ due = some (r'.proof js)) →
      s.jobs.Ready c due)
    (hplaced : Placed js { s with asking, replies := s.replies.put r', phase }) :
    Holds js { s with asking, replies := s.replies.put r', phase } := by
  have hcross : ∀ c, r'.claim = some c → ∀ r ∈ s.replies.rows, r.messageId ≠ r'.messageId →
      ∀ c', r.claim = some c' → c'.actionId ≠ c.actionId := by
    intro c hc r hr hne c' hc' he
    rcases (hclaim c hc).2 with ⟨r₀, hr₀, hid, hc₀⟩ | hasked
    · exact hne (h.single r hr r₀ hr₀ c' c hc' hc₀ he ▸ hid)
    · exact h.apart r hr c' hc' c hasked he.symm
  refine ⟨h.inv, h.channelled, ?_, ?_, h.asking.sublist (hsub.map _), ?_, ?_, hplaced⟩
  · rintro c due (⟨hc, rfl⟩ | ⟨r, hr, hc, hrec, hst⟩)
    · exact h.ready c none (.inl ⟨hsub.subset hc, rfl⟩)
    · rcases Table.mem_put.1 hr with rfl | ⟨hr, -⟩
      · exact hready c due hc hrec hst
      · exact h.ready c due (.inr ⟨r, hr, hc, hrec, hst⟩)
  · intro r hr c hc
    rcases Table.mem_put.1 hr with rfl | ⟨hr, -⟩
    · rcases (hclaim c hc).2 with ⟨r₀, hr₀, -, hc₀⟩ | hasked
      · exact h.made r₀ hr₀ c hc₀
      · exact h.asked hasked
    · exact h.made r hr c hc
  · intro r hr c hc c' hc'
    rcases Table.mem_put.1 hr with rfl | ⟨hr, -⟩
    · exact (hclaim c hc).1 c' hc'
    · exact h.apart r hr c hc c' (hsub.subset hc')
  · intro r₁ hr₁ r₂ hr₂ c₁ c₂ hc₁ hc₂ he
    rcases Table.mem_put.1 hr₁ with e₁ | ⟨hold₁, hne₁⟩ <;>
      rcases Table.mem_put.1 hr₂ with e₂ | ⟨hold₂, hne₂⟩
    · exact e₁.trans e₂.symm
    · exact absurd he.symm (hcross c₁ (e₁ ▸ hc₁) r₂ hold₂ hne₂ c₂ hc₂)
    · exact absurd he (hcross c₂ (e₂ ▸ hc₂) r₁ hold₁ hne₁ c₁ hc₁)
    · exact h.single r₁ hold₁ r₂ hold₂ c₁ c₂ hc₁ hc₂ he

/-- What a row that is neither sent nor pending gives way to. -/
theorem quiet_put {asking : List Claimed} {r' : Reply} (hnot : r'.owed = false)
    (hold : ∀ r ∈ s.replies.rows, r.messageId = r'.messageId →
      r.status ≠ .sent ∧ r.status ≠ .pending) :
    Quiet s { s with asking, replies := s.replies.put r' } where
  phase := rfl
  jobs := rfl
  stays r hr hst := by
    refine Table.mem_put.2 (.inr ⟨hr, fun hid => ?_⟩)
    rcases hst with hst | hst
    · exact (hold r hr hid).1 hst
    · exact (hold r hr hid).2 hst
  owed r hr ho := by
    rcases Table.mem_put.1 hr with rfl | ⟨hr, -⟩
    · rw [hnot] at ho
      cases ho
    · exact hr

/-! ## The steps -/

theorem ready_due (h : s.jobs.Ready c none) (due : Option String) : s.jobs.Ready c due :=
  ⟨h.kept, h.live, h.alone, h.job, h.made, fun r hr => nomatch h.source r hr⟩

theorem step_claim {ps : Processes} {job step cause : String} {owner : Owner} {m : Mint}
    (h : Holds js s) (hst : s.exec js (.claim ps job step cause owner m) = some s')
    (hc : Clean js s (.claim ps job step cause owner m)) : Holds js s' := by
  simp only [Sends.exec, Option.map_eq_some_iff] at hst
  obtain ⟨j, hj, rfl⟩ := hst
  have hexec : s.jobs.exec (.begin ps job step cause "carbon-send" owner m) = .ok j := by
    cases he : s.jobs.exec (.begin ps job step cause "carbon-send" owner m) with
    | error e => rw [he] at hj; cases hj
    | ok j' => rw [he] at hj; cases hj; rfl
  have hfresh : m.id ∉ s.jobs.minted := by
    have he := hexec
    simp only [St.exec, ok_bind] at he
    obtain ⟨⟨⟩, hmint, -⟩ := he
    exact (mint_ok hmint).2.2
  refine (h.jobs hexec hc.1).more (begin_ready h.inv h.channelled hexec hc.2)
    ⟨fun c' hc' he => ?_, fun r hr c' hc' he => ?_⟩
  · have hminted := h.inv.made c' (h.asked hc')
    rw [he] at hminted
    exact hfresh hminted
  · have hminted := h.inv.made c' (h.made r hr c' hc')
    rw [← he] at hminted
    exact hfresh hminted

theorem step_write {r : Reply} (h : Holds js s) (hst : s.exec js (.write r) = some s') :
    Holds js s' := by
  simp only [Sends.exec] at hst
  split at hst
  swap
  · cases hst
  rename_i hw
  cases hst
  simp only [Sends.writable, Bool.and_eq_true, Bool.or_eq_true, decide_eq_true_eq,
    Bool.not_eq_true', Option.all_eq_true] at hw
  obtain ⟨⟨⟨⟨hstatus, -⟩, -⟩, hclaim⟩, hold⟩ := hw
  have hne : r.status ≠ .sent := by
    rcases hstatus with h | h <;> simp [h]
  have hsub : ((r.claim.map s.asking.erase).getD s.asking).Sublist s.asking := by
    cases r.claim with
    | none => exact List.Sublist.refl _
    | some c => exact List.erase_sublist
  refine h.put hsub (fun c hc => ?_) (fun c due hc _ hdue => ?_) (h.placed.quiet (quiet_put ?_ ?_))
  · have hmem : c ∈ s.asking := by simpa using hclaim c hc
    refine ⟨fun c' hc' he => ?_, .inr hmem⟩
    -- the claim is taken from those asked for, and no other has its id
    rw [hc] at hc'
    have hnodup : s.asking.Nodup := List.Nodup.of_map _ h.asking
    obtain ⟨hne', hc'⟩ := (hnodup.mem_erase_iff).1 hc'
    exact hne' (List.inj_on_of_nodup_map h.asking hc' hmem he)
  · have hmem : c ∈ s.asking := by simpa using hclaim c hc
    exact ready_due (h.ready c none (.inl ⟨hmem, rfl⟩)) due
  · simp [Reply.owed, hne]
  · intro r₀ hr₀ hid
    have hfailed := hold r₀ (hid ▸ Table.mem_find hr₀)
    simp [hfailed]

theorem step_judge {messageId : String} {lets : Bool} (h : Holds js s)
    (hst : s.exec js (.judge messageId lets) = some s') : Holds js s' := by
  simp only [Sends.exec] at hst
  split at hst
  swap
  · cases hst
  rename_i r hr
  split at hst
  swap
  · cases hst
  rename_i hteach
  cases hst
  have hmem := Table.find_mem hr
  refine h.put (List.Sublist.refl _) (fun c hc => ?_) (fun c due hc hrec _ => ?_)
    (h.placed.quiet (quiet_put ?_ ?_))
  · exact ⟨h.apart r hmem c hc, .inl ⟨r, hmem, rfl, hc⟩⟩
  · exact ready_due (h.ready c none (.inr ⟨r, hmem, hc, hrec, .inl ⟨by rw [hteach]; rfl, rfl⟩⟩)) due
  · cases lets <;> simp [Reply.owed]
  · intro r₀ hr₀ hid
    rw [Table.ext_key hr₀ hmem hid, hteach]
    simp

theorem step_restart (h : Holds js s) (hst : s.exec js .restart = some s') : Holds js s' := by
  cases hst
  have hold : ∀ r ∈ (s.replies.mapRows Reply.recovered Reply.recovered_messageId).rows,
      ∃ r₀ ∈ s.replies.rows, r = r₀.recovered ∧ r.claim = r₀.claim := by
    intro r hr
    obtain ⟨r₀, hr₀, rfl⟩ := List.mem_map.1 hr
    refine ⟨r₀, hr₀, rfl, ?_⟩
    unfold Reply.recovered
    split <;> rfl
  refine ⟨h.inv, h.channelled, ?_, ?_, List.nodup_nil, ?_, ?_, trivial⟩
  case refine_3 => exact fun _ _ _ _ _ hc => nomatch hc
  · rintro c due (⟨hc, -⟩ | ⟨r, hr, hc, hrec, hst⟩)
    · cases hc
    · obtain ⟨r₀, hr₀, rfl, hclaim⟩ := hold r hr
      rw [hclaim] at hc
      unfold Reply.recovered at hrec hst
      split at hst
      · simp [Status.live] at hst
      · rename_i hkept
        rw [if_neg hkept] at hrec
        exact h.ready c due (.inr ⟨r₀, hr₀, hc, hrec, hst⟩)
  · intro r hr c hc
    obtain ⟨r₀, hr₀, -, hclaim⟩ := hold r hr
    exact h.made r₀ hr₀ c (hclaim ▸ hc)
  · intro r hr r' hr' c c' hc hc' he
    obtain ⟨r₀, hr₀, rfl, hclaim⟩ := hold r hr
    obtain ⟨r₁, hr₁, rfl, hclaim'⟩ := hold r' hr'
    rw [h.single r₀ hr₀ r₁ hr₁ c c' (hclaim ▸ hc) (hclaim' ▸ hc') he]

/-- The claims and the replies as they were, `deliver` at another point. -/
theorem Holds.goes (h : Holds js s) {phase : Phase} (hp : Placed js { s with phase }) :
    Holds js { s with phase } :=
  ⟨h.inv, h.channelled, h.ready, h.made, h.asking, h.apart, h.single, hp⟩

theorem listed_rows (t : Table Reply.messageId) (status : Status) : Listed t t.rows status :=
  ⟨t.nodup, fun _ hr _ => hr⟩

theorem Listed.tail {r : Reply} {todo : List Reply} {status : Status}
    (h : Listed s.replies (r :: todo) status) :
    r.messageId ∉ todo.map (·.messageId) ∧ Listed s.replies todo status := by
  have hn := h.apart
  rw [List.map_cons, List.nodup_cons] at hn
  exact ⟨hn.1, hn.2, fun r' hr' => h.found r' (List.mem_cons_of_mem _ hr')⟩

theorem step_go (h : Holds js s) (hst : s.exec js .go = some s') : Holds js s' := by
  have hp := h.placed
  unfold Placed at hp
  simp only [Sends.exec] at hst
  split at hst
  · rename_i hphase
    cases hst
    simp only [hphase] at hp
    refine h.goes ⟨listed_rows s.replies _, fun r hr => ?_⟩
    by_contra howed
    exact nomatch hp.2 r hr (by simpa using howed)
  · rename_i r todo hphase
    simp only [hphase] at hp
    obtain ⟨hid, htail⟩ := hp.1.tail
    -- what is owed is behind the record, unless it is the record's own
    have hskip : r.owed = false → ∀ r' ∈ s.replies.rows, r'.owed = true → r' ∈ todo := by
      intro hnot r' hr' ho
      rcases List.mem_cons.1 (hp.2 r' hr' ho) with rfl | hin
      · rw [hnot] at ho
        cases ho
      · exact hin
    cases hclaim : r.claim with
    | none =>
      simp only [hclaim] at hst
      cases hst
      exact h.goes ⟨htail, hskip (by simp [Reply.owed, hclaim])⟩
    | some c =>
      simp only [hclaim] at hst
      cases hst
      by_cases howed : r.owed = true
      · rw [if_pos howed]
        refine h.goes ⟨⟨hp.1.found r List.mem_cons_self (owed_iff.1 howed).1, howed, hclaim,
          fun hf => nomatch hf⟩, hid, htail, fun r' hr' ho => ?_⟩
        exact (List.mem_cons.1 (hp.2 r' hr' ho)).imp_right fun hin => ⟨rfl, hin⟩
      · rw [if_neg howed]
        exact h.goes ⟨htail, hskip (by simpa using howed)⟩
  · rename_i hphase
    cases hst
    exact h.goes trivial
  · rename_i r todo hphase
    simp only [hphase] at hp
    split at hst
    · cases hst
    · cases hst
      exact h.goes ⟨hp.1.tail.2, hp.2⟩
  · cases hst

theorem step_deliver (h : Holds js s) (hst : s.exec js .deliver = some s') : Holds js s' := by
  simp only [Sends.exec] at hst
  split at hst
  · cases hst
    exact h.goes ⟨listed_rows s.replies _, fun r hr _ => hr⟩
  · cases hst

theorem Reply.settled_same (r : Reply) (answer : Confirmed) :
    (r.settled answer).messageId = r.messageId ∧ (r.settled answer).claim = r.claim ∧
      (r.settled answer).recorded = r.recorded ∧ (r.settled answer).status.live = false := by
  cases answer <;> exact ⟨rfl, rfl, rfl, rfl⟩

theorem step_send {answer : Confirmed} (h : Holds js s)
    (hst : s.exec js (.send answer) = some s') : Holds js s' := by
  have hp := h.placed
  unfold Placed at hp
  simp only [Sends.exec] at hst
  split at hst
  swap
  · cases hst
  rename_i r todo hphase
  simp only [hphase] at hp
  split at hst
  swap
  · cases hst
  rename_i hpending
  obtain ⟨hlisted, hnone⟩ := hp
  obtain ⟨hid, htail⟩ := hlisted.tail
  have hmem := hlisted.found r List.mem_cons_self hpending
  obtain ⟨hid', hclaim', hrec', hlive'⟩ := Reply.settled_same r answer
  -- the rest of the loop is about other messages
  have hrest : Listed (s.replies.put (r.settled answer)) todo .pending :=
    ⟨htail.apart, fun r' hr' hst' => Table.mem_put.2 (.inr ⟨htail.found r' hr' hst', fun he =>
      hid (by rw [← hid', ← he]; exact List.mem_map_of_mem hr')⟩)⟩
  have howes : ∀ r' ∈ (s.replies.put (r.settled answer)).rows, r'.owed = true →
      r' = r.settled answer := by
    intro r' hr' ho
    rcases Table.mem_put.1 hr' with rfl | ⟨hr', -⟩
    · rfl
    · rw [hnone r' hr'] at ho
      cases ho
  have hput : ∀ {phase : Phase},
      Placed js { s with replies := s.replies.put (r.settled answer), phase } →
      Holds js { s with replies := s.replies.put (r.settled answer), phase } := by
    intro phase hplaced
    refine h.put (List.Sublist.refl _) (fun c hc => ?_) (fun c due hc hrec _ => ?_) hplaced
    · rw [hclaim'] at hc
      exact ⟨h.apart r hmem c hc, .inl ⟨r, hmem, hid'.symm, hc⟩⟩
    · rw [hclaim'] at hc
      rw [hrec'] at hrec
      exact ready_due (h.ready c none (.inr ⟨r, hmem, hc, hrec, .inl ⟨by rw [hpending]; rfl, rfl⟩⟩)) due
  have hsending : (r.settled answer).owed = false → ∀ r' ∈ (s.replies.put (r.settled answer)).rows,
      r'.owed = false := by
    intro hnot r' hr'
    by_contra ho
    rw [Bool.not_eq_false] at ho
    rw [howes r' hr' ho, hnot] at ho
    cases ho
  cases hclaim : (r.settled answer).claim with
  | none =>
    simp only [hclaim] at hst
    cases hst
    exact hput ⟨hrest, hsending (by simp [Reply.owed, hclaim])⟩
  | some c =>
    simp only [hclaim] at hst
    cases hst
    by_cases howed : (r.settled answer).owed = true
    · rw [if_pos howed]
      refine hput ⟨⟨Table.mem_put.2 (.inl rfl), howed, hclaim, fun hf => nomatch hf⟩, ?_, hrest,
        fun r' hr' ho => .inl (howes r' hr' ho)⟩
      rw [hid']
      exact hid
    · rw [if_neg howed]
      exact hput ⟨hrest, hsending (by simpa using howed)⟩

/-- The claim that `deliver` is finishing, as the watch sees it. -/
theorem Holds.current (h : Holds js s) {r : Reply} (hr : r ∈ s.replies.rows)
    (howed : r.owed = true) (hc : r.claim = some c) :
    Watched js s c (some (r.proof js)) ∧ ∀ c' due, Watched js s c' due →
      c'.actionId = c.actionId → c' = c ∧ due = some (r.proof js) := by
  obtain ⟨hsent, -, hrec⟩ := owed_iff.1 howed
  refine ⟨.inr ⟨r, hr, hc, hrec, .inr ⟨hsent, rfl⟩⟩, ?_⟩
  rintro c' due (⟨hc', -⟩ | ⟨r', hr', hc', -, hst⟩) he
  · exact absurd he (h.apart r hr c hc c' hc')
  · cases h.single r' hr' r hr c' c hc' hc he
    refine ⟨Option.some.inj (hc'.symm.trans hc), ?_⟩
    rcases hst with ⟨hlive, -⟩ | ⟨-, hdue⟩
    · rw [hsent] at hlive
      cases hlive
    · exact hdue

theorem step_receipt (hsha : ∀ t, isSourceId ("carbon-send:" ++ js.sha256 t) = true)
    (h : Holds js s) (hst : s.exec js .receipt = some s') : Holds js s' := by
  have hp := h.placed
  unfold Placed at hp
  simp only [Sends.exec] at hst
  split at hst
  swap
  · cases hst
  rename_i r c first todo hphase
  simp only [hphase] at hp
  obtain ⟨⟨hr, howed, hc, -⟩, hid, hlisted, hall⟩ := hp
  obtain ⟨hwatched, hunique⟩ := h.current hr howed hc
  have hready := h.ready c _ hwatched
  have hmint := h.inv.made c hready.made
  have hsource : ∀ r', s.jobs.db.receipts.find c.actionId = some r' → r'.sourceId = r.proof js :=
    fun r' hr' => (Option.some.inj (hready.source r' hr')).symm
  have hcause : isSourceId (r.proof js) = true := hsha _
  obtain ⟨db, hdb⟩ := receipt_goes h.inv hready.kept hready.live hready.job hmint hcause hsource
  rw [hdb] at hst
  cases hst
  have hreceipt := receipt_left h.inv hmint hsource hdb
  -- the transaction is that of a call which ends behind it
  obtain ⟨s₁, h₁, h₂⟩ := receipt_steps (s := s.jobs) (f := ⟨c.job, c.step, r.proof js, c.actionId⟩) hdb
  have hfirst := h.jobs h₁ fun c' due hw => ⟨trivial, trivial, fun _ ht => ht.elim, fun _ _ _ _ _ =>
    nofun, fun f hf he => by
      cases hf
      rw [show uuid c.actionId = c.actionId from (h.inv.uuids _ hmint).2] at he
      exact (hunique c' due hw he.symm).2⟩
  have hsecond := hfirst.jobs h₂ fun c' due hw =>
    ⟨trivial, trivial, fun _ ht => ht.elim, fun _ _ _ _ _ => nofun, fun f => nofun⟩
  exact hsecond.goes ⟨⟨hr, howed, hc, fun _ => hreceipt⟩, hid, hlisted, hall⟩

theorem step_note {verified : Except (List Fault) Bool} {m : Mint} (h : Holds js s)
    (hst : s.exec js (.note verified m) = some s') (hclean : Clean js s (.note verified m)) :
    Holds js s' := by
  have hp := h.placed
  unfold Placed at hp
  simp only [Sends.exec] at hst
  split at hst
  swap
  · cases hst
  rename_i r c first todo hphase
  simp only [hphase] at hp
  obtain ⟨⟨hr, howed, hc, hreceipt⟩, hid, hlisted, hall⟩ := hp
  have hreceipt := hreceipt trivial
  obtain ⟨hwatched, -⟩ := h.current hr howed hc
  have hready := h.ready c _ hwatched
  split at hst
  swap
  · cases hst
  rename_i hmint
  obtain ⟨receipt, hfind, -, hrstep, hrcause⟩ := id hreceipt
  have hcause : isSourceId (r.proof js) = true := by
    rw [← hrcause]
    exact (h.inv.receipts receipt (Table.find_mem hfind)).2.1
  obtain ⟨db, rec, hrecord⟩ := record_goes h.inv hready.kept hready.live hready.alone hready.job
    hcause hreceipt verified m
  have hexec : s.jobs.exec (.record c.job c.step .observation (r.proof js) verified m) =
      .ok { s.jobs with db, minted := m.id :: s.jobs.minted } := by
    simp only [St.exec, ok_bind]
    exact ⟨(), hmint, (db, rec), hrecord, rfl⟩
  rw [hexec] at hst
  cases hst
  have hjobs := h.jobs hexec fun c' due hw => by
    by_cases he : c' = c
    · subst he
      exact ⟨fun sop x _ _ _ => ⟨receipt, hfind, hrstep, hrcause⟩, trivial, fun _ ht => ht.elim,
        fun _ _ _ _ _ he => (by cases he), fun f he => by cases he⟩
    · exact hclean r c true first todo hphase c' due hw he
  refine hjobs.put (List.Sublist.refl _) (fun c₁ hc₁ => ?_) (fun c₁ due _ hrec _ => by cases hrec) ?_
  · exact ⟨h.apart r hr c₁ hc₁, .inl ⟨r, hr, rfl, hc₁⟩⟩
  -- the loop goes on behind the reply, which is owed nothing now
  have hlisted' : Listed (s.replies.put { r with recorded := true }) todo (about first) :=
    ⟨hlisted.apart, fun r' hr' hst' => Table.mem_put.2 (.inr ⟨hlisted.found r' hr' hst', fun he =>
      hid (by rw [← he]; exact List.mem_map_of_mem hr')⟩)⟩
  have howes : ∀ r' ∈ (s.replies.put { r with recorded := true }).rows, r'.owed = true →
      first = true ∧ r' ∈ todo := by
    intro r' hr' ho
    rcases Table.mem_put.1 hr' with rfl | ⟨hr', hne⟩
    · simp [Reply.owed] at ho
    · rcases hall r' hr' ho with rfl | hin
      · exact absurd rfl hne
      · exact hin
  cases first with
  | true => exact ⟨hlisted', fun r' hr' ho => (howes r' hr' ho).2⟩
  | false =>
    refine ⟨hlisted', fun r' hr' => ?_⟩
    by_contra ho
    rw [Bool.not_eq_false] at ho
    cases (howes r' hr' ho).1

theorem holds_step (hsha : ∀ t, isSourceId ("carbon-send:" ++ js.sha256 t) = true)
    (h : Holds js s) (hst : s.exec js a = some s') (hc : Clean js s a) : Holds js s' := by
  cases a with
  | jobs op =>
    simp only [Sends.exec, Option.map_eq_some_iff] at hst
    obtain ⟨j, hj, rfl⟩ := hst
    cases he : s.jobs.exec op with
    | error e => rw [he] at hj; cases hj
    | ok j' =>
      rw [he] at hj
      cases hj
      exact h.jobs he hc
  | claim ps job step cause owner m => exact step_claim h hst hc
  | drop c =>
    cases hst
    exact h.less List.erase_sublist
  | write r => exact step_write h hst
  | judge messageId lets => exact step_judge h hst
  | deliver => exact step_deliver h hst
  | go => exact step_go h hst
  | send answer => exact step_send h hst
  | receipt => exact step_receipt hsha h hst
  | note verified m => exact step_note h hst hc
  | unanswered => exact hc.elim
  | restart => exact step_restart h hst

theorem holds_init : Holds js {} where
  inv := inv_init
  channelled _ hd := nomatch hd
  ready c due hw := by
    rcases hw with ⟨hc, -⟩ | ⟨r, hr, -⟩
    · cases hc
    · cases hr
  made r hr := nomatch hr
  asking := List.nodup_nil
  apart r hr := nomatch hr
  single r hr := nomatch hr
  placed := trivial

/-- A digest in hexadecimal, 64 digits of it. -/
structure Hex (text : String) : Prop where
  length : text.toList.length = 64
  digits : ∀ c ∈ text.toList, c ∈ "0123456789abcdef".toList

theorem plain_chars : ∀ c ∈ "carbon-send:".toList ++ "0123456789abcdef".toList,
    isSpace c = false ∧ isControl c = false ∧ ¬ c.toNat > 0xffff :=
  List.forall_iff_forall_mem.1 (by decide +kernel)

/-- What a reply is finished with is a source id. -/
theorem hex_source {text : String} (h : Hex text) : isSourceId ("carbon-send:" ++ text) = true := by
  have hall : ∀ c ∈ ("carbon-send:" ++ text).toList,
      isSpace c = false ∧ isControl c = false ∧ ¬ c.toNat > 0xffff := by
    intro c hc
    rw [String.toList_append] at hc
    refine plain_chars c (List.mem_append.2 ?_)
    exact (List.mem_append.1 hc).imp_right (h.digits c)
  have hlength : utf16Length ("carbon-send:" ++ text) = 76 := by
    have hone : ("carbon-send:" ++ text).toList.map (fun c => if c.toNat > 0xffff then 2 else 1) =
        ("carbon-send:" ++ text).toList.map fun _ => 1 :=
      List.map_congr_left fun c hc => if_neg (hall c hc).2.2
    rw [utf16Length, hone, List.map_const', List.sum_replicate_nat, String.toList_append,
      List.length_append, h.length]
    rfl
  have hne : "carbon-send:" ++ text ≠ "" := by
    intro he
    rw [he] at hlength
    simp [utf16Length] at hlength
  unfold isSourceId
  simp only [Bool.and_eq_true, bne_iff_ne, ne_eq, decide_eq_true_eq, List.all_eq_true,
    Bool.not_eq_true', Option.all_eq_true]
  refine ⟨⟨⟨⟨hne, by omega⟩, fun c hc => (hall c hc).2.1⟩, fun c hc => ?_⟩, fun c hc => ?_⟩
  · have := hall c (List.mem_of_head? hc)
    exact ⟨this.1, this.2.1⟩
  · have := hall c (List.mem_of_getLast? hc)
    exact ⟨this.1, this.2.1⟩

/-- In every run of clean steps `deliver` raises nothing, and once it goes on to what is pending
the action of every reply that was sent is recorded. -/
theorem deliver_goes (hsha : ∀ text, Hex (js.sha256 text)) (h : (cleanSends js).Reachable s) :
    s.phase ≠ .ended ∧ ∀ todo, s.phase = .sending todo →
      ∀ r ∈ s.replies.rows, r.status = .sent → r.claim.isSome = true → r.recorded = true := by
  have hind : (cleanSends js).Inductive (Holds js) := by
    refine ⟨fun s hs => ?_, fun s a s' hI hst => ?_⟩
    · have hs : s = {} := hs
      subst hs
      exact holds_init
    · exact holds_step (fun t => hex_source (hsha t)) hI hst.1 hst.2
  have hp := (hind.reachable s h).placed
  unfold Placed at hp
  refine ⟨fun he => ?_, fun todo he r hr hsent hclaim => ?_⟩
  · rw [he] at hp
    exact hp
  · rw [he] at hp
    have hnot := hp.2 r hr
    simpa [Reply.owed, hsent, hclaim] using hnot

end Runs

/-! ## A quote that is sent while the client cancels -/

open OneJob

def digest : String := "d7058a0b56bca5393e8f473026b7fc60ecd9d3531683c05aa7785761c689e4b3"

def channelJs : Js where
  parse _ := none
  iso := toString
  localeCompare a b := if a < b then .lt else if a = b then .eq else .gt
  sha256 _ := digest
  stringify text := "\"" ++ text ++ "\""

theorem digest_hex : Hex digest :=
  ⟨by decide +kernel, List.forall_iff_forall_mem.1 (by decide +kernel)⟩

def quoted : Claimed := ⟨(drawn 1).id, "send-quote", "carbon-send", (drawn 2).id⟩

def quote : Reply := { messageId := "out-1", requestId := "req-1", status := .pending, claim := some quoted }

/-- Another reply, without a claim. -/
def behind : Reply := { messageId := "out-2", requestId := "req-2", status := .pending }

def Sends.run (s : Sends) (ops : List SendOp) : Option Sends := ops.foldlM (Sends.exec channelJs) s

theorem runs : ∀ {ops : List SendOp} {s s' : Sends}, Sends.run s ops = some s' →
    (sends channelJs).Run s ops s'
  | [], s, s', h => by
    cases h
    exact .nil s
  | a :: ops, s, s', h => by
    rw [Sends.run, List.foldlM_cons] at h
    obtain ⟨s₁, h₁, h₂⟩ := Option.bind_eq_some_iff.1 h
    exact .cons h₁ (runs h₂)

/-- The quote is claimed and written. -/
def writing : List SendOp :=
  [.jobs (version "1" false),
    .jobs (.opens (some ⟨"rel-1", "unit-1", ["m1"], owner⟩) "tow" "unit-1" [] "m1" (drawn 1)),
    .claim running (drawn 1).id "send-quote" "req-1" owner (drawn 2), .write quote]

/-- The channel takes it. -/
def delivering : List SendOp := [.deliver, .go, .go, .send (.sent ["c1"]), .receipt, .note (.ok false) (drawn 3)]

def stage (n : Nat) : Sends := (Sends.run {} ((writing ++ delivering).take n)).getD {}

/-- Nothing is watched while no claim is asked for and no reply is written. -/
theorem unwatched {s : Sends} (hasking : s.asking = []) (hrows : s.replies.rows = []) {c : Claimed}
    {due : Option String} : ¬ Watched channelJs s c due := by
  rintro (⟨hc, -⟩ | ⟨r, hr, -⟩)
  · rw [hasking] at hc
    cases hc
  · rw [hrows] at hr
    cases hr

/-- What is on the stages: nothing before the quote is claimed, and then its claim alone. -/
theorem staged : (Sends.run {} (writing ++ delivering)).isSome = true ∧
    ((stage 1).asking = [] ∧ (stage 1).replies.rows = []) ∧
    ((stage 2).asking = [] ∧ (stage 2).replies.rows = []) ∧
    ((stage 2).jobs.db.jobs.find (uuid (drawn 1).id)).map (·.pending.rows) = some [] ∧
    (stage 9).asking = [] ∧ (stage 9).replies.rows.all (fun r => r.claim = some quoted) = true ∧
    (stage 9).phase = .finishing { quote with status := .sent, chunkIds := ["c1"] } quoted
      true false [] ∧
    (stage 10).phase = .sending [] ∧
    ((stage 10).replies.rows.any fun r => decide (r.status = .sent ∧ r.claim = some quoted)) = true := by
  decide +kernel

theorem stage_step {n : Nat} (hn : n < (writing ++ delivering).length) :
    (stage n).exec channelJs (writing ++ delivering)[n] = some (stage (n + 1)) := by
  have happend : ∀ ops ops' : List SendOp, Sends.run {} (ops ++ ops') =
      (Sends.run {} ops).bind fun s => Sends.run s ops' := fun ops ops' => List.foldlM_append
  have htake : ∀ n, Sends.run {} ((writing ++ delivering).take n) = some (stage n) := by
    intro n
    have h := staged.1
    rw [← List.take_append_drop n (writing ++ delivering), happend] at h
    cases hs : Sends.run {} ((writing ++ delivering).take n) with
    | none =>
      rw [hs] at h
      cases h
    | some s => rw [stage, hs, Option.getD_some]
  have hone := happend ((writing ++ delivering).take n) [(writing ++ delivering)[n]]
  rw [← List.take_succ_eq_append_getElem hn, htake, htake] at hone
  exact (bind_pure _).symm.trans hone.symm

/-- Nothing is pending on the job before the quote is claimed. -/
theorem stage_unshared : (stage 2).jobs.Unshared
    (.begin running (drawn 1).id "send-quote" "req-1" "carbon-send" owner (drawn 2)) := by
  rintro sop x ⟨row, hrow, -, hx⟩
  obtain ⟨-, -, -, hnone, -⟩ := staged
  rw [hrow] at hnone
  rw [show row.pending.rows = [] from Option.some.inj hnone] at hx
  cases hx

/-- What is watched when the quote is recorded is its own claim. -/
theorem stage_watched {c : Claimed} {due : Option String}
    (hw : Watched channelJs (stage 9) c due) : c = quoted := by
  obtain ⟨-, -, -, -, hasking, hrows, -⟩ := staged
  rcases hw with ⟨hc, -⟩ | ⟨r, hr, hc, -⟩
  · rw [hasking] at hc
    cases hc
  · have := List.all_eq_true.1 hrows r hr
    rw [hc] at this
    exact Option.some.inj (by simpa using this)

/-- The quote is sent and recorded in clean steps. -/
theorem stage_clean : (cleanSends channelJs).Reachable (stage 10) := by
  have hstep : ∀ n a (hn : n < (writing ++ delivering).length), (writing ++ delivering)[n] = a →
      Clean channelJs (stage n) a → (cleanSends channelJs).Reachable (stage n) →
      (cleanSends channelJs).Reachable (stage (n + 1)) := by
    rintro n a hn rfl hc h
    exact h.step ⟨stage_step hn, hc⟩
  obtain ⟨-, ⟨hasking₁, hrows₁⟩, ⟨hasking₂, hrows₂⟩, -, -, -, hat, -⟩ := staged
  have h₀ : (cleanSends channelJs).Reachable (stage 0) := ⟨stage 0, [], rfl, .nil _⟩
  have h₁ := hstep 0 (.jobs (version "1" false)) (by decide) rfl
    (fun c due hw => (unwatched rfl rfl hw).elim) h₀
  have h₂ := hstep 1 (.jobs (.opens (some ⟨"rel-1", "unit-1", ["m1"], owner⟩) "tow" "unit-1" [] "m1"
    (drawn 1))) (by decide) rfl (fun c due hw => (unwatched hasking₁ hrows₁ hw).elim) h₁
  have h₃ := hstep 2 (.claim running (drawn 1).id "send-quote" "req-1" owner (drawn 2)) (by decide) rfl
    ⟨fun c due hw => (unwatched hasking₂ hrows₂ hw).elim, stage_unshared⟩ h₂
  have h₄ := hstep 3 (.write quote) (by decide) rfl trivial h₃
  have h₅ := hstep 4 .deliver (by decide) rfl trivial h₄
  have h₆ := hstep 5 .go (by decide) rfl trivial h₅
  have h₇ := hstep 6 .go (by decide) rfl trivial h₆
  have h₈ := hstep 7 (.send (.sent ["c1"])) (by decide) rfl trivial h₇
  have h₉ := hstep 8 .receipt (by decide) rfl trivial h₈
  refine hstep 9 (.note (.ok false) (drawn 3)) (by decide) rfl ?_ h₉
  intro r c receipted first todo hphase c' due hw hne
  rw [hat] at hphase
  cases hphase
  exact absurd (stage_watched hw) hne

/-- The quote that was sent is recorded. -/
theorem deliver_goes_quoted :
    ∃ r ∈ (stage 10).replies.rows, r.status = .sent ∧ r.claim = some quoted ∧ r.recorded = true := by
  obtain ⟨-, -, -, -, -, -, -, hphase, hany⟩ := staged
  obtain ⟨r, hr, hquoted⟩ := List.any_eq_true.1 hany
  obtain ⟨hsent, hclaim⟩ := of_decide_eq_true hquoted
  exact ⟨r, hr, hsent, hclaim, (deliver_goes (fun _ => digest_hex) stage_clean).2 [] hphase r hr hsent
    (by rw [hclaim]; rfl)⟩

/-- The client cancels, and another reply is written, before the quote is delivered. -/
def cancelling : List SendOp :=
  [.jobs (.collect "m2" "email" "unit-1"),
    .jobs (.record (drawn 1).id "client-cancels" .observation "m2" (.ok false) (drawn 3)),
    .write behind]

/-- A pass and its end; and what every process after it does. -/
def stopping : List SendOp := [.deliver, .go, .go, .go, .send (.sent ["c1"]), .receipt]

def stopped : Sends := (Sends.run {} (writing ++ cancelling ++ stopping)).getD {}

/-- What the runtime does by itself. -/
def own : SendOp → Bool
  | .deliver | .go | .send _ | .receipt | .note _ _ | .unanswered | .restart => true
  | _ => false

def sentQuote : Reply := { quote with status := .sent, chunkIds := ["c1"] }

/-- Where a process that starts from then on gets to. -/
def points : List Phase :=
  [.ended, .idle, .completing [sentQuote, behind], .finishing sentQuote quoted false true [behind]]

/-- The quote is sent and the other reply behind it, and the receipt of the quote is refused. -/
structure Stuck (t : Sends) : Prop where
  asking : t.asking = []
  rows : t.replies.rows = [sentQuote, behind]
  recovered : t.replies.mapRows Reply.recovered Reply.recovered_messageId = t.replies
  receipt : ({ t with phase := .finishing sentQuote quoted false true [behind] } : Sends).exec
    channelJs .receipt = some { t with phase := .ended }

theorem stopped_ran : Sends.run {} (writing ++ cancelling ++ stopping) = some stopped ∧
    stopped.phase = .ended ∧ stopped.asking = [] ∧ stopped.replies.rows = [sentQuote, behind] ∧
    stopped.replies.mapRows Reply.recovered Reply.recovered_messageId = stopped.replies ∧
    ({ stopped with phase := .finishing sentQuote quoted false true [behind] } : Sends).exec
      channelJs .receipt = some { stopped with phase := .ended } := by decide +kernel

theorem stopped_stuck : Stuck stopped :=
  ⟨stopped_ran.2.2.1, stopped_ran.2.2.2.1, stopped_ran.2.2.2.2.1, stopped_ran.2.2.2.2.2⟩

/-- What a restart makes of the box. -/
theorem stuck_restart {t : Sends} (ht : Stuck t) (p : Phase) :
    ({ t with phase := p } : Sends).exec channelJs .restart = some { t with phase := .idle } := by
  simp only [Sends.exec, ht.recovered, ht.asking]

/-- Each process goes round and gets no further than the quote. -/
theorem stuck_step {t s s' : Sends} {a : SendOp} (ht : Stuck t) (ha : own a = true)
    (hs : ∃ p ∈ points, s = { t with phase := p }) (hst : s.exec channelJs a = some s') :
    ∃ p ∈ points, s' = { t with phase := p } := by
  have hended : Phase.ended ∈ points := by simp [points]
  have hidle : Phase.idle ∈ points := by simp [points]
  have hcompleting : Phase.completing [sentQuote, behind] ∈ points := by simp [points]
  have hfinishing : Phase.finishing sentQuote quoted false true [behind] ∈ points := by simp [points]
  obtain ⟨p, hp, rfl⟩ := hs
  cases a with
  | restart =>
    rw [stuck_restart ht] at hst
    cases hst
    exact ⟨_, hidle, rfl⟩
  | deliver =>
    simp only [points, List.mem_cons, List.not_mem_nil, or_false] at hp
    rcases hp with rfl | rfl | rfl | rfl
    · cases hst
    · simp only [Sends.exec, ht.rows] at hst
      cases hst
      exact ⟨_, hcompleting, rfl⟩
    · cases hst
    · cases hst
  | go =>
    simp only [points, List.mem_cons, List.not_mem_nil, or_false] at hp
    rcases hp with rfl | rfl | rfl | rfl
    · cases hst
    · cases hst
    · cases hst
      exact ⟨_, hfinishing, rfl⟩
    · cases hst
  | receipt =>
    simp only [points, List.mem_cons, List.not_mem_nil, or_false] at hp
    rcases hp with rfl | rfl | rfl | rfl
    · cases hst
    · cases hst
    · cases hst
    · rw [ht.receipt] at hst
      cases hst
      exact ⟨_, hended, rfl⟩
  | unanswered =>
    simp only [points, List.mem_cons, List.not_mem_nil, or_false] at hp
    rcases hp with rfl | rfl | rfl | rfl
    · cases hst
    · cases hst
    · cases hst
    · cases hst
      exact ⟨_, hended, rfl⟩
  | send answer =>
    simp only [points, List.mem_cons, List.not_mem_nil, or_false] at hp
    rcases hp with rfl | rfl | rfl | rfl <;> cases hst
  | note verified m =>
    simp only [points, List.mem_cons, List.not_mem_nil, or_false] at hp
    rcases hp with rfl | rfl | rfl | rfl <;> cases hst
  | _ => exact absurd ha (by simp [own])

theorem stuck_run {t s s' : Sends} {ops : List SendOp} (ht : Stuck t)
    (hrun : (sends channelJs).Run s ops s') (hown : ∀ a ∈ ops, own a = true)
    (hs : ∃ p ∈ points, s = { t with phase := p }) : ∃ p ∈ points, s' = { t with phase := p } := by
  induction hrun with
  | nil => exact hs
  | cons hst _ ih =>
    exact ih (fun a ha => hown a (List.mem_cons_of_mem _ ha))
      (stuck_step ht (hown _ List.mem_cons_self) hs hst)

theorem stuck_rows {t s' : Sends} {ops : List SendOp} (ht : Stuck t) (hended : t.phase = .ended)
    (hown : ∀ a ∈ ops, own a = true) (hrun : (sends channelJs).Run t ops s') :
    s'.replies.rows = [sentQuote, behind] := by
  have hstart : ∃ p ∈ points, t = { t with phase := p } :=
    ⟨.ended, by simp [points], by rw [← hended]⟩
  obtain ⟨p, -, rfl⟩ := stuck_run ht hrun hown hstart
  exact ht.rows

/-- **Counterexample**: the client cancels while the quote is under way, the quote is sent, and its
claim is refused, which ends the process. Whatever the processes after it do, each pass is refused
the same claim first, and the reply behind the quote stays pending. -/
theorem channel_stopped :
    (sends channelJs).Run {} (writing ++ cancelling ++ stopping) stopped ∧
      stopped.phase = .ended ∧
      ∀ ops s', (∀ a ∈ ops, own a = true) → (sends channelJs).Run stopped ops s' →
        s'.replies.rows = [sentQuote, behind] := by
  obtain ⟨hran, hended, -⟩ := stopped_ran
  exact ⟨runs hran, hended, fun ops s' hown hrun => stuck_rows stopped_stuck hended hown hrun⟩

end CarbonRuntime.Bugs.StoppedChannel
