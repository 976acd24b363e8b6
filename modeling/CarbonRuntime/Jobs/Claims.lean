import CarbonRuntime.Jobs.System

/-!
# What becomes of a claim

A claim that `action_begin` answered is open until its `action_finish` or
`action_reconcile_absent` returns. What a step can do to an open claim, and to the definition
its job is at.

**Results.** `new_holds`: what is pending and was not was taken by an `action_begin` or an
intent that is recorded, for the step of the call and under its first track.
`exec_definitions`: a definition is there or one of an install's. `recorded_event`: what an
observation moves is written down.
-/

open CarbonRuntime.Core CarbonRuntime.Stream

namespace CarbonRuntime.Jobs

open Records

/-- A claim that `action_begin` answered and no call has ended. -/
def St.Claim (s : St) (c : Claimed) : Prop := c ∈ s.made ∧ c.actionId ∉ s.closed

/-- An action of the step may be taken on the job, under the key. -/
def Db.Takes (db : Db) (job step cause id : String) (x : String × PendingAction) : Prop :=
  ∃ row sop event, db.readJob job = .ok row ∧ db.definitionFor row = .ok sop ∧
    stepOf sop step = .ok event ∧ id = row.id ∧ x.1 = event.claimKey step ∧ x.2.step = step ∧
    row.pending.truthy (event.claimKey step) = false ∧
    db.events.find (row.id, cause, step, .intent) = none

def St.taken (s : St) (op : Op) (id : String) (x : String × PendingAction) : Prop :=
  match op with
  | .begin _ job step cause _ _ _ => s.db.Takes job step cause id x
  | .record job step .intent cause _ _ => s.db.Takes job step cause id x
  | _ => False

section Calls

variable {s s' : St} {op : Op} {ps : Processes} {job step cause operation : String} {owner : Owner}
  {m : Mint}

/-- Calls that returned stay so, and a new claim is of an `action_begin`. -/
theorem exec_calls (h : s.exec op = .ok s') :
    (∀ a ∈ s.closed, a ∈ s'.closed) ∧ ∀ c ∈ s'.made, c ∈ s.made ∨
      ∃ ps job step cause operation owner m, op = .begin ps job step cause operation owner m ∧
        c = ⟨job, step, operation, m.id⟩ := by
  cases op with
  | opens current sop unit references cause m =>
    simp only [St.exec, ok_bind] at h
    obtain ⟨-, -, db', -, h⟩ := h
    cases h
    exact ⟨fun a ha => ha, fun c hc => .inl hc⟩
  | collect cause channel unit =>
    simp only [St.exec, ok_bind] at h
    obtain ⟨db', -, h⟩ := h
    cases h
    exact ⟨fun a ha => ha, fun c hc => .inl hc⟩
  | begin ps job step cause operation owner m =>
    simp only [St.exec, ok_bind] at h
    obtain ⟨-, -, ⟨db', claim⟩, hbegin, h⟩ := h
    cases h
    obtain ⟨row, sop, event, -, -, -, -, -, -, -, -, rfl, -⟩ := actionBegin_ok hbegin
    refine ⟨fun a ha => ha, fun c hc => ?_⟩
    rcases List.mem_cons.1 hc with rfl | hc
    · exact .inr ⟨ps, job, step, cause, operation, owner, m, rfl, rfl⟩
    · exact .inl hc
  | receipt f =>
    simp only [St.exec, ok_bind] at h
    obtain ⟨db', -, h⟩ := h
    cases h
    exact ⟨fun a ha => ha, fun c hc => .inl hc⟩
  | finish f verified m =>
    simp only [St.exec, ok_bind] at h
    obtain ⟨-, -, -, -, ⟨db', rec⟩, -, h⟩ := h
    cases h
    exact ⟨fun a ha => List.mem_cons_of_mem _ ha, fun c hc => .inl hc⟩
  | abandon f =>
    cases h
    exact ⟨fun a ha => ha, fun c hc => .inl hc⟩
  | reconcile ps job step cause actionId read =>
    simp only [St.exec, ok_bind] at h
    obtain ⟨db', -, h⟩ := h
    cases h
    exact ⟨fun a ha => List.mem_cons_of_mem _ ha, fun c hc => .inl hc⟩
  | record job step kind cause verified m =>
    simp only [St.exec, ok_bind] at h
    obtain ⟨-, -, ⟨db', rec⟩, -, h⟩ := h
    cases h
    exact ⟨fun a ha => ha, fun c hc => .inl hc⟩
  | install files =>
    simp only [St.exec, ok_bind] at h
    obtain ⟨-, -, db', -, h⟩ := h
    cases h
    exact ⟨fun a ha => ha, fun c hc => .inl hc⟩

/-- A claim that was just made is pending. -/
theorem begin_holds (h : s.exec (.begin ps job step cause operation owner m) = .ok s') :
    ∃ row sop event, s.db.readJob job = .ok row ∧ s.db.definitionFor row = .ok sop ∧
      stepOf sop step = .ok event ∧ event.kind = .intent ∧ isUuid job = true ∧
      s'.db.Holds (uuid job) row.sop
        (event.claimKey step, ⟨step, m.id, cause, .claimed, m.now, some owner⟩) := by
  simp only [St.exec, ok_bind] at h
  obtain ⟨-, -, ⟨db', claim⟩, hbegin, h⟩ := h
  cases h
  obtain ⟨row, sop, event, hjob, -, hrow, hsop, hevent, hkind, -, -, rfl, rfl⟩ :=
    actionBegin_ok hbegin
  obtain ⟨-, hid⟩ := Db.readJob_ok hrow
  refine ⟨row, sop, event, hrow, hsop, hevent, hkind, hjob, ?_⟩
  rw [← hid, holds_wrote row (row.take _ _) rfl rfl, if_pos rfl]
  exact ⟨rfl, Table.mem_put.2 (.inl rfl)⟩

/-- What a call that takes an action leaves pending. -/
theorem take_new {row : Job} {sop : Sop} {event : Step} {r : EventRow} {action : PendingAction}
    (hrow : s.db.readJob job = .ok row) (hsop : s.db.definitionFor row = .ok sop)
    (hevent : stepOf sop step = .ok event)
    (hfree : row.pending.truthy (event.claimKey step) = false)
    (hnone : s.db.events.find (row.id, cause, step, .intent) = none) (hstep : action.step = step)
    {id sop' : String} {x : String × PendingAction}
    (hx : (s.db.wrote (row.take (event.claimKey step) action) r).Holds id sop' x) :
    s.db.Holds id sop' x ∨ s.db.Takes job step cause id x := by
  obtain ⟨hfind, hid⟩ := Db.readJob_ok hrow
  rw [← hid] at hfind
  rw [holds_wrote row (row.take (event.claimKey step) action) rfl rfl] at hx
  split at hx
  · rename_i he
    rcases Table.mem_put.1 hx.2 with rfl | ⟨hold, -⟩
    · exact .inr ⟨row, sop, event, hrow, hsop, hevent, he, rfl, hstep, hfree, hnone⟩
    · exact .inl (he ▸ (holds_row hfind).2 ⟨hx.1, hold⟩)
  · exact .inl hx

/-- What is pending and was not was taken by the step. -/
theorem new_holds (h : s.exec op = .ok s') {id sop : String} {x : String × PendingAction}
    (hx : s'.db.Holds id sop x) : s.db.Holds id sop x ∨ s.taken op id x := by
  cases op with
  | opens current sop' unit references cause m =>
    simp only [St.exec, ok_bind] at h
    obtain ⟨-, -, db', hopen, h⟩ := h
    cases h
    obtain ⟨d, row, -, -, -, -, hpending, rfl⟩ := jobOpen_ok hopen
    obtain ⟨row', hrow', hs, hmem⟩ := hx
    rw [show (s.db.putJob row).jobs.find id = if id = row.id then some row else s.db.jobs.find id
      from Table.find_put s.db.jobs row id] at hrow'
    split at hrow'
    · cases hrow'
      rw [hpending] at hmem
      cases hmem
    · exact .inl ⟨row', hrow', hs, hmem⟩
  | collect cause channel unit =>
    simp only [St.exec, collect, ok_bind] at h
    obtain ⟨db', ⟨-, -, hdb⟩, h⟩ := h
    cases h
    cases hdb
    split at hx <;> exact .inl hx
  | begin ps job step cause operation owner m =>
    simp only [St.exec, ok_bind] at h
    obtain ⟨-, -, ⟨db', claim⟩, hbegin, h⟩ := h
    cases h
    obtain ⟨row, sop', event, -, -, hrow, hsop, hevent, -, hfree, hnone, rfl, rfl⟩ :=
      actionBegin_ok hbegin
    exact take_new hrow hsop hevent hfree hnone rfl hx
  | receipt f =>
    obtain ⟨r, row, -, -, -, hcase, -, -⟩ := receipt_effect h
    rcases hcase with ⟨-, hdb, -⟩ | ⟨y, -, -, -, -, -, hdb⟩
    · exact .inl (hdb ▸ hx)
    · exact .inl ((holds_jobs (hdb ▸ (receipted_same s.db r).1)).1 hx)
  | finish f verified m =>
    simp only [St.exec, ok_bind] at h
    obtain ⟨-, -, -, -, ⟨db', rec⟩, hrec, h⟩ := h
    cases h
    exact .inl ((observation_writes (.finish f verified m) hrec fun id x hm => hm).1 id sop x hx)
  | abandon f =>
    cases h
    exact .inl hx
  | reconcile ps job step cause actionId read =>
    simp only [St.exec, ok_bind] at h
    obtain ⟨db', hrec, h⟩ := h
    cases h
    obtain ⟨row, track, action, hrow, hfound, -, rfl⟩ := actionReconcileAbsent_ok hrec
    obtain ⟨hfind, hid⟩ := Db.readJob_ok hrow
    rw [← hid] at hfind
    exact .inl ((reconcile_effect hfind
      (Job.mem_actions.1 (List.mem_of_find?_eq_some hfound))).1 id sop x hx)
  | record job step kind cause verified m =>
    simp only [St.exec, ok_bind] at h
    obtain ⟨-, -, ⟨db', rec⟩, hrec, h⟩ := h
    cases h
    cases kind with
    | observation =>
      exact .inl ((observation_writes (.record job step .observation cause verified m) hrec
        fun id x hm => hm).1 id sop x hx)
    | intent =>
      obtain ⟨row, sop', event, hrow, hsop, hevent, hrest⟩ := jobRecord_ok hrec
      rcases hrest with ⟨-, rfl⟩ | ⟨-, hreserve⟩
      · exact .inl hx
      · obtain ⟨hfree, hnone, rfl⟩ := reserve_ok hreserve
        obtain ⟨-, rfl, -⟩ := stepOf_ok hevent
        exact take_new hrow hsop hevent hfree hnone rfl hx
  | install files =>
    simp only [St.exec, ok_bind] at h
    obtain ⟨-, -, db', hinstall, h⟩ := h
    cases h
    exact .inl ((installSops_migrated hinstall).holds.1 hx)

/-- An observation that moves something is written down. -/
theorem recorded_event {db' : Db} {verified : Except (List Fault) Bool} {rec : Recorded}
    (h : jobRecord s.db job step .observation cause verified m = .ok (db', rec))
    {id track : String} (hm : s.db.Moves job step cause id track) :
    (db'.events.find (id, cause, step, .observation)).isSome := by
  obtain ⟨row, sop', event, hrow, hsop, hevent, hnone, rfl, -⟩ := hm
  obtain ⟨row₁, sop₁, event₁, hrow₁, hsop₁, hevent₁, hrest⟩ := jobRecord_ok h
  cases hrow.symm.trans hrow₁
  cases hsop.symm.trans hsop₁
  cases hevent.symm.trans hevent₁
  rcases hrest with ⟨hdup, -⟩ | ⟨-, -, hobserve⟩
  · rw [show Kind.row .observation = .observation from rfl, hnone] at hdup
    cases hdup
  · obtain ⟨-, -, rfl⟩ := observe_ok.1 hobserve
    obtain ⟨-, rfl, -⟩ := stepOf_ok hevent
    exact Option.isSome_iff_exists.2 ⟨_, Table.find_put_self s.db.events
      ⟨row.id, event.id, .observation, cause, none, (applyObservation event row.positions).offModel⟩⟩

end Calls

/-! ## The definitions -/

theorem stepsFaults_intent {s : Sop} : ∀ {seen : List String} {es : List Step},
    stepsFaults s seen es = [] → ∀ e ∈ es, e.kind = .intent → e.observedVia = "agent_action"
  | _, [], _ => by simp
  | seen, e :: es, h => by
    unfold stepsFaults at h
    split at h
    · simp only [List.append_eq_nil_iff, Step.faults, orFault_eq_nil] at h
      obtain ⟨⟨-, ⟨⟨⟨-, hchannel⟩, -⟩, -⟩, -⟩, hrest⟩ := h
      intro e' he' hkind
      rcases List.mem_cons.1 he' with rfl | he'
      · simpa [hkind] using hchannel
      · exact stepsFaults_intent hrest e' he' hkind
    · cases h

/-- The intents of a valid SOP are observed through `agent_action`. -/
theorem validateSop_intent {s : Sop} {fileSop : String} (h : validateSop s fileSop = []) :
    ∀ e ∈ s.events, e.kind = .intent → e.observedVia = "agent_action" := by
  unfold validateSop at h
  dsimp only at h
  split at h
  · rename_i hne
    exact absurd h hne
  · exact stepsFaults_intent (List.append_eq_nil_iff.1 (List.append_eq_nil_iff.1 h).1).2

section Definitions

variable {s s' : St} {op : Op} {db db' : Db} {files : List SopFile}

theorem installSops_definitions : ∀ {files : List SopFile} {db db' : Db},
    installSops db files = .ok db' → ∀ d ∈ db'.definitions, d ∈ db.definitions ∨
      ∃ c ∈ files, d.definition = c.definition
  | [], db, db', h => by
    cases h
    exact fun d hd => .inl hd
  | c :: cs, db, db', h => by
    rw [installSops, List.foldlM_cons, ok_bind] at h
    obtain ⟨db₁, h₁, h₂⟩ := h
    intro d hd
    rcases installSops_definitions h₂ d hd with hd | ⟨c', hc', he⟩
    · rcases installSop_ok h₁ with ⟨-, rfl⟩ | ⟨renames, -, -, -, hdefs, -⟩
      · exact .inl hd
      · rw [hdefs] at hd
        rcases List.mem_append.1 hd with hd | hd
        · exact .inl hd
        · cases List.mem_singleton.1 hd
          exact .inr ⟨c, List.mem_cons_self, rfl⟩
    · exact .inr ⟨c', List.mem_cons_of_mem _ hc', he⟩

/-- The definition a job is at, after one file. -/
theorem installSop_definition {c : SopFile} (h : installSop db c = .ok db') {id : String}
    {row : Job} {sop : Sop} (hrow : db.jobs.find id = some row)
    (hdef : db.definitionFor row = .ok sop) :
    ∃ row' sop', db'.jobs.find id = some row' ∧ row'.sop = row.sop ∧
      db'.definitionFor row' = .ok sop' ∧ (sop' = sop ∨
        c.sop = row.sop ∧ db.installedAs c.sop c.definition.version = none ∧ sop' = c.definition) := by
  obtain ⟨row', hrow', hsop, -, hfor⟩ := (installSop_migrated h).forth id row hrow
  obtain ⟨sop', hdef', hor⟩ := hfor sop hdef
  refine ⟨row', sop', hrow', hsop, hdef', ?_⟩
  rcases installSop_ok h with ⟨-, rfl⟩ | ⟨renames, hnone, -⟩
  · cases hrow.symm.trans hrow'
    exact .inl (Except.ok.inj (hdef'.symm.trans hdef))
  · rcases hor with rfl | ⟨c', hc', hs, rfl⟩
    · exact .inl rfl
    · cases List.mem_singleton.1 hc'
      exact .inr ⟨hs, hnone, rfl⟩

/-- The definition a job is at, after an install: the one it was at, or that of a file which was
not installed before. -/
theorem installSops_definition : ∀ {files : List SopFile} {db : Db}, installSops db files = .ok db' →
    (files.map fun c => tableOf c.sop).Nodup → ∀ {id : String} {row : Job} {sop : Sop},
      db.jobs.find id = some row → db.definitionFor row = .ok sop →
      ∃ row' sop', db'.jobs.find id = some row' ∧ row'.sop = row.sop ∧
        db'.definitionFor row' = .ok sop' ∧ (sop' = sop ∨ ∃ c ∈ files, c.sop = row.sop ∧
          db.installedAs c.sop c.definition.version = none ∧ sop' = c.definition)
  | [], db, h, _, id, row, sop, hrow, hdef => by
    cases h
    exact ⟨row, sop, hrow, rfl, hdef, .inl rfl⟩
  | c :: cs, db, h, hapart, id, row, sop, hrow, hdef => by
    rw [installSops, List.foldlM_cons, ok_bind] at h
    obtain ⟨db₁, h₁, h₂⟩ := h
    obtain ⟨hne, hapart⟩ := List.nodup_cons.1 hapart
    obtain ⟨row₁, sop₁, hrow₁, hsop₁, hdef₁, hor₁⟩ := installSop_definition h₁ hrow hdef
    obtain ⟨row', sop', hrow', hsop', hdef', hor'⟩ :=
      installSops_definition h₂ hapart hrow₁ hdef₁
    refine ⟨row', sop', hrow', hsop'.trans hsop₁, hdef', ?_⟩
    rcases hor' with rfl | ⟨c', hc', hs, hnone, rfl⟩
    · exact hor₁.imp_right fun hnew => ⟨c, List.mem_cons_self, hnew⟩
    · -- the file before it is of another SOP
      have happart : tableOf c.sop ≠ tableOf c'.sop :=
        fun e => hne (List.mem_map.2 ⟨c', hc', e.symm⟩)
      rw [(installSop_untouched h₁ happart).installedAs] at hnone
      exact .inr ⟨c', List.mem_cons_of_mem _ hc', hs.trans hsop₁, hnone, rfl⟩

/-- Definitions are installed only. -/
theorem exec_definitions (h : s.exec op = .ok s') :
    s'.db.definitions = s.db.definitions ∨ ∃ files, op = .install files ∧
      checkFiles files = true ∧ installSops s.db files = .ok s'.db := by
  cases op with
  | opens current sop unit references cause m =>
    simp only [St.exec, ok_bind] at h
    obtain ⟨-, -, db', hopen, h⟩ := h
    cases h
    obtain ⟨d, row, -, -, -, -, -, rfl⟩ := jobOpen_ok hopen
    exact .inl rfl
  | collect cause channel unit =>
    simp only [St.exec, collect, ok_bind] at h
    obtain ⟨db', ⟨-, -, hdb⟩, h⟩ := h
    cases h
    cases hdb
    left
    dsimp only
    split <;> rfl
  | begin ps job step cause operation owner m =>
    simp only [St.exec, ok_bind] at h
    obtain ⟨-, -, ⟨db', claim⟩, hbegin, h⟩ := h
    cases h
    obtain ⟨row, sop', event, -, -, -, -, -, -, -, -, -, rfl⟩ := actionBegin_ok hbegin
    exact .inl rfl
  | receipt f =>
    obtain ⟨r, row, -, -, -, hcase, -, -⟩ := receipt_effect h
    rcases hcase with ⟨-, hdb, -⟩ | ⟨y, -, -, -, -, -, hdb⟩
    · exact .inl (by rw [hdb])
    · exact .inl (by rw [hdb, (receipted_same s.db r).2.1])
  | finish f verified m =>
    simp only [St.exec, ok_bind] at h
    obtain ⟨-, -, -, -, ⟨db', rec⟩, hrec, h⟩ := h
    cases h
    exact .inl (observation_writes (.finish f verified m) hrec fun id x hm => hm).2.definitions
  | abandon f =>
    cases h
    exact .inl rfl
  | reconcile ps job step cause actionId read =>
    simp only [St.exec, ok_bind] at h
    obtain ⟨db', hrec, h⟩ := h
    cases h
    obtain ⟨row, track, action, -, -, -, rfl⟩ := actionReconcileAbsent_ok hrec
    exact .inl rfl
  | record job step kind cause verified m =>
    simp only [St.exec, ok_bind] at h
    obtain ⟨-, -, ⟨db', rec⟩, hrec, h⟩ := h
    cases h
    cases kind with
    | observation =>
      exact .inl (observation_writes (.record job step .observation cause verified m) hrec
        fun id x hm => hm).2.definitions
    | intent =>
      obtain ⟨row, sop', event, -, -, -, hrest⟩ := jobRecord_ok hrec
      rcases hrest with ⟨-, rfl⟩ | ⟨-, hreserve⟩
      · exact .inl rfl
      · obtain ⟨-, -, rfl⟩ := reserve_ok hreserve
        exact .inl rfl
  | install files =>
    simp only [St.exec, ok_bind, ok_check] at h
    obtain ⟨-, hfiles, db', hinstall, h⟩ := h
    cases h
    exact .inr ⟨files, rfl, hfiles, hinstall⟩

/-- The intents of every definition are observed through `agent_action`. -/
def Db.Channelled (db : Db) : Prop :=
  ∀ d ∈ db.definitions, ∀ e ∈ d.definition.events, e.kind = .intent → e.observedVia = "agent_action"

theorem channelled_step (hs : s.db.Channelled) (h : s.exec op = .ok s') : s'.db.Channelled := by
  intro d hd
  rcases exec_definitions h with heq | ⟨files, -, hfiles, hinstall⟩
  · exact hs d (heq ▸ hd)
  · rcases installSops_definitions hinstall d hd with hd | ⟨c, hc, he⟩
    · exact hs d hd
    · simp only [checkFiles, Bool.and_eq_true, List.all_eq_true, decide_eq_true_eq] at hfiles
      rw [he]
      exact validateSop_intent (hfiles.1 c hc)

/-- The definition a job is at after a step. -/
theorem exec_definition (h : s.exec op = .ok s') (hi : Inv s) {id : String} {row : Job} {sop : Sop}
    (hrow : s.db.jobs.find id = some row) (hdef : s.db.definitionFor row = .ok sop) :
    ∃ row' sop', s'.db.jobs.find id = some row' ∧ row'.sop = row.sop ∧
      s'.db.definitionFor row' = .ok sop' ∧ (sop' = sop ∨
        ∃ files c, op = .install files ∧ c ∈ files ∧ c.sop = row.sop ∧
          s.db.installedAs c.sop c.definition.version = none ∧ sop' = c.definition) := by
  by_cases hinst : ∃ files, op = .install files
  · obtain ⟨files, rfl⟩ := hinst
    simp only [St.exec, ok_bind, ok_check, checkFiles, Bool.and_eq_true, decide_eq_true_eq] at h
    obtain ⟨-, hfiles, db', hinstall, h⟩ := h
    cases h
    obtain ⟨row', sop', hrow', hsop, hdef', hor⟩ := installSops_definition hinstall hfiles.2 hrow hdef
    refine ⟨row', sop', hrow', hsop, hdef', hor.imp_right ?_⟩
    rintro ⟨c, hnew⟩
    exact ⟨files, c, rfl, hnew⟩
  · have hno : ∀ files, op ≠ .install files := fun files e => hinst ⟨files, e⟩
    by_cases hop : ∃ f, op = .receipt f
    · obtain ⟨f, rfl⟩ := hop
      obtain ⟨r, row₁, -, -, -, hcase, -, -⟩ := receipt_effect h
      refine ⟨row, sop, ?_, rfl, ?_, .inl rfl⟩
      · rcases hcase with ⟨-, hdb, -⟩ | ⟨y, -, -, -, -, -, hdb⟩
        · rw [hdb]; exact hrow
        · rw [hdb, (receipted_same s.db r).1]; exact hrow
      · rcases exec_definitions h with heq | ⟨files, he, -⟩
        · exact definitionFor_congr heq rfl rfl hdef
        · exact absurd he (hno files)
    · have he := exec_effect h (fun f e => hop ⟨f, e⟩)
        (fun id row hrow => (hi.jobs id row hrow).1) hi.versions
      obtain ⟨row', hrow', hsop, hfor⟩ := he.forth id row hrow
      obtain ⟨sop', hdef', hor⟩ := hfor sop hdef
      refine ⟨row', sop', hrow', hsop, hdef', .inl (hor.resolve_right ?_)⟩
      rintro ⟨files, c, he, -⟩
      exact hno files he

end Definitions

/-! ## One claim, over the steps -/

section One

variable {s s' : St} {op : Op} {c : Claimed} {cause : String}

/-- The claim is pending. -/
def St.Pending (s : St) (c : Claimed) : Prop :=
  ∃ sop x, s.db.Holds (uuid c.job) sop x ∧ x.2.actionId = c.actionId ∧ x.2.step = c.step ∧
    x.2.state = .claimed ∧ x.2.owner.isSome

/-- Nothing is pending under the claim's id. -/
def St.Gone (s : St) (c : Claimed) : Prop :=
  ∀ id sop x, s.db.Holds id sop x → x.2.actionId ≠ c.actionId

/-- There is a receipt of the claim, under the source. -/
def St.Receipted (s : St) (c : Claimed) (cause : String) : Prop :=
  ∃ r, s.db.receipts.find c.actionId = some r ∧ r.job = uuid c.job ∧ r.step = c.step ∧
    r.sourceId = cause

/-- The observation of the claim's step is recorded under its receipt. -/
def St.Noted (s : St) (c : Claimed) : Prop :=
  ∃ cause, s.Receipted c cause ∧
    (s.db.events.find (uuid c.job, cause, c.step, .observation)).isSome

/-- The claim's step is live where the job is, and observed through `agent_action`. -/
def St.Live (s : St) (c : Claimed) : Prop :=
  ∃ row sop event, s.db.jobs.find (uuid c.job) = some row ∧ s.db.definitionFor row = .ok sop ∧
    stepOf sop c.step = .ok event ∧ event.observedVia = "agent_action"

/-- Nothing else of its step is pending on the job of the claim. -/
def St.Alone (s : St) (c : Claimed) : Prop :=
  ∀ sop x sop' y, s.db.Holds (uuid c.job) sop x → s.db.Holds (uuid c.job) sop' y →
    x.2.actionId = c.actionId → y.2.step = c.step → y = x

/-- The observation takes the claim away on its own receipt only. -/
def Db.Spares (db : Db) (job step cause : String) (c : Claimed) : Prop :=
  ∀ sop x, db.Holds (uuid c.job) sop x → x.2.actionId = c.actionId →
    db.Moves job step cause (uuid c.job) x.1 →
    ∃ r, db.receipts.find c.actionId = some r ∧ r.step = step ∧ r.sourceId = cause

/-- An observation that the step records spares the claim. -/
def St.Spares (s : St) (c : Claimed) : Op → Prop
  | .finish f _ _ => s.db.Spares f.job f.step f.cause c
  | .record job step .observation cause _ _ => s.db.Spares job step cause c
  | _ => True

/-- A version that the step installs keeps the claim's step as it is. -/
def St.Carries (s : St) (c : Claimed) : Op → Prop
  | .install files => ∀ row, s.db.jobs.find (uuid c.job) = some row → ∀ file ∈ files,
      file.sop = row.sop → s.db.installedAs file.sop file.definition.version = none →
      ∃ event, stepOf file.definition c.step = .ok event ∧ event.observedVia = "agent_action"
  | _ => True

/-- The step takes no second action of the claim's step. -/
def St.Separate (s : St) (c : Claimed) (op : Op) : Prop :=
  ∀ x, s.taken op (uuid c.job) x → x.2.step ≠ c.step

theorem receipts_step (hi : Inv s) (h : s.exec op = .ok s') {a : String} {r : Receipt}
    (hr : s.db.receipts.find a = some r) : s'.db.receipts.find a = some r := by
  by_cases hop : ∃ f, op = .receipt f
  · obtain ⟨f, rfl⟩ := hop
    obtain ⟨r₁, row, -, -, -, hcase, -, -⟩ := receipt_effect h
    rcases hcase with ⟨-, hdb, -⟩ | ⟨x, -, -, -, -, -, hdb⟩
    · rw [hdb]
      exact hr
    · rw [hdb]
      unfold Db.receipted
      split
      · exact hr
      · rename_i hnone
        dsimp only
        rw [Table.find_put, if_neg, hr]
        rintro rfl
        exact hnone (hr ▸ rfl)
  · have he := exec_effect h (fun f e => hop ⟨f, e⟩)
      (fun id row hrow => (hi.jobs id row hrow).1) hi.versions
    rw [he.receipts]
    exact hr

theorem events_step (hi : Inv s) (h : s.exec op = .ok s') {k : String × String × String × EventKind}
    (hk : (s.db.events.find k).isSome) : (s'.db.events.find k).isSome := by
  by_cases hop : ∃ f, op = .receipt f
  · obtain ⟨f, rfl⟩ := hop
    obtain ⟨r, row, -, -, -, hcase, -, -⟩ := receipt_effect h
    rcases hcase with ⟨-, hdb, -⟩ | ⟨x, -, -, -, -, -, hdb⟩
    · rw [hdb]; exact hk
    · rw [hdb, (receipted_same s.db r).2.2]; exact hk
  · exact (exec_effect h (fun f e => hop ⟨f, e⟩) (fun id row hrow => (hi.jobs id row hrow).1)
      hi.versions).events k hk

theorem St.Receipted.step (hi : Inv s) (h : s.exec op = .ok s') (hr : s.Receipted c cause) :
    s'.Receipted c cause := by
  obtain ⟨r, hr, hjob, hstep, hcause⟩ := hr
  exact ⟨r, receipts_step hi h hr, hjob, hstep, hcause⟩

theorem St.Noted.step (hi : Inv s) (h : s.exec op = .ok s') (hn : s.Noted c) : s'.Noted c := by
  obtain ⟨cause, hr, he⟩ := hn
  exact ⟨cause, hr.step hi h, events_step hi h he⟩

/-- What an observation that spares the claim leaves of it. -/
theorem spared (hi : Inv s) (h : s.exec op = .ok s') {job step : String} {db' : Db}
    {verified : Except (List Fault) Bool} {m : Mint} {rec : Recorded}
    (hrec : jobRecord s.db job step .observation cause verified m = .ok (db', rec))
    (hdb : s'.db = db') (hs : s.db.Spares job step cause c) {sop : String}
    {x : String × PendingAction} (hx : s.db.Holds (uuid c.job) sop x)
    (hid : x.2.actionId = c.actionId) (hstep : x.2.step = c.step)
    (hm : s.db.Moves job step cause (uuid c.job) x.1) : s'.Noted c := by
  obtain ⟨r, hr, hrstep, hrcause⟩ := hs sop x hx hid hm
  have hof := (hi.receipts r (Table.find_mem hr)).2.2 _ _ _ hx (hid.trans (Table.find_key hr).symm)
  have he := recorded_event hrec hm
  rw [← hdb, ← hrcause, ← hrstep, hof.2.2, hstep] at he
  exact ⟨r.sourceId, St.Receipted.step hi h ⟨r, hr, hof.1, hof.2.2.trans hstep, rfl⟩, he⟩

/-- No step makes an action of an id that was drawn. -/
theorem held_before (hi : Inv s) (h : s.exec op = .ok s') (hc : c.actionId ∈ s.minted)
    {id sop : String} {x : String × PendingAction} (hx : s'.db.Holds id sop x)
    (hid : x.2.actionId = c.actionId) : s.db.Holds id sop x := by
  by_cases hop : ∃ f, op = .receipt f
  · obtain ⟨f, rfl⟩ := hop
    rcases new_holds h hx with hx | ht
    · exact hx
    · exact ht.elim
  · have he := exec_effect h (fun f e => hop ⟨f, e⟩) (fun id row hrow => (hi.jobs id row hrow).1)
      hi.versions
    refine ((effect_new hi he).1 id sop x hx).resolve_right fun hn => hn.1 ?_
    rw [hid]
    exact hc

theorem St.Gone.step (hi : Inv s) (h : s.exec op = .ok s') (hc : c.actionId ∈ s.minted)
    (hg : s.Gone c) : s'.Gone c := fun id sop x hx hid => hg id sop x (held_before hi h hc hx hid) hid

/-- The claim is pending, or its observation is recorded under its receipt. -/
def St.Kept (s : St) (c : Claimed) : Prop := s.Pending c ∨ s.Noted c ∧ s.Gone c

/-- A claim is kept or reconciled. -/
theorem kept_step (hi : Inv s) (h : s.exec op = .ok s') (hk : s.Kept c) (hs : s.Spares c op)
    (hc : c.actionId ∈ s.minted) :
    s'.Kept c ∨ ∃ ps job step cause read, op = .reconcile ps job step cause c.actionId read := by
  rcases hk with ⟨sop, x, hx, hid, hstep, hstate, howner⟩ | ⟨hnoted, hgone⟩
  swap
  · exact .inl (.inr ⟨hnoted.step hi h, hgone.step hi h hc⟩)
  by_cases hstill : s'.db.Holds (uuid c.job) sop x
  · exact .inl (.inl ⟨sop, x, hstill, hid, hstep, hstate, howner⟩)
  -- nothing else has the id
  have hgone : s'.Gone c := by
    intro id' sop' y hy hyid
    have hbefore := held_before hi h hc hy hyid
    obtain ⟨rfl, rfl⟩ := hi.single _ _ _ _ _ _ hx hbefore (hid.trans hyid.symm)
    obtain ⟨row', hrow', -, hmem⟩ := hy
    obtain ⟨row, hrow, hsop, -⟩ := hx
    have hall := hi.jobs _ row hrow
    obtain ⟨sop₀, hdef⟩ := hall.2
    obtain ⟨row₁, -, hrow₁, hsame, -⟩ := exec_definition h hi hrow hdef
    cases hrow'.symm.trans hrow₁
    exact hstill ⟨row', hrow', hsame.trans hsop, hmem⟩
  by_cases hop : ∃ f, op = .receipt f
  · obtain ⟨f, rfl⟩ := hop
    obtain ⟨r, row, -, -, -, hcase, -, -⟩ := receipt_effect h
    refine absurd ?_ hstill
    rcases hcase with ⟨-, hdb, -⟩ | ⟨y, -, -, -, -, -, hdb⟩
    · rw [hdb]; exact hx
    · rw [hdb]; exact (holds_jobs (receipted_same s.db r).1).2 hx
  · have he := exec_effect h (fun f e => hop ⟨f, e⟩) (fun id row hrow => (hi.jobs id row hrow).1)
      hi.versions
    have hlost := (he.loses _ sop x hx).resolve_left hstill
    cases op with
    | finish f verified m =>
      have hexec := h
      simp only [St.exec, ok_bind] at h
      obtain ⟨-, -, -, -, ⟨db', rec⟩, hrec, hret⟩ := h
      cases hret
      exact .inl (.inr ⟨spared hi hexec hrec rfl hs hx hid hstep hlost, hgone⟩)
    | record job step kind cause verified m =>
      cases kind with
      | observation =>
        have hexec := h
        simp only [St.exec, ok_bind] at h
        obtain ⟨-, -, ⟨db', rec⟩, hrec, hret⟩ := h
        cases hret
        exact .inl (.inr ⟨spared hi hexec hrec rfl hs hx hid hstep hlost, hgone⟩)
      | intent => exact hlost.elim
    | reconcile ps job step cause actionId read =>
      have hlost : x.2.actionId = actionId := hlost
      cases hlost.symm.trans hid
      exact .inr ⟨ps, job, step, cause, read, rfl⟩
    | _ => exact hlost.elim

theorem live_step (hi : Inv s) (h : s.exec op = .ok s') (hl : s.Live c) (hc : s.Carries c op) :
    s'.Live c := by
  obtain ⟨row, sop, event, hrow, hsop, hevent, hvia⟩ := hl
  obtain ⟨row', sop', hrow', hs, hsop', hor⟩ := exec_definition h hi hrow hsop
  rcases hor with rfl | ⟨files, file, rfl, hfile, hfs, hnone, rfl⟩
  · exact ⟨row', sop', event, hrow', hsop', hevent, hvia⟩
  · obtain ⟨event', hevent', hvia'⟩ := hc row hrow file hfile hfs hnone
    exact ⟨row', _, event', hrow', hsop', hevent', hvia'⟩

theorem alone_step (hi : Inv s) (h : s.exec op = .ok s') (hc : c.actionId ∈ s.minted)
    (ha : s.Alone c) (hs : s.Separate c op) : s'.Alone c := by
  intro sop x sop' y hx hy hid hstep
  rcases new_holds h hy with hy | ht
  · exact ha sop x sop' y (held_before hi h hc hx hid) hy hid hstep
  · exact absurd hstep (hs y ht)

/-- No action of the claimed step is pending on the job. -/
def St.Unshared (s : St) : Op → Prop
  | .begin _ job step _ _ _ _ => ∀ sop x, s.db.Holds (uuid job) sop x → x.2.step ≠ step
  | _ => True

/-- The step of a claim that is made is live, and observed through `agent_action`. -/
theorem begin_live {ps : Processes} {job step cause operation : String} {owner : Owner} {m : Mint}
    (hv : s.db.Channelled) (h : s.exec (.begin ps job step cause operation owner m) = .ok s') :
    s.Live ⟨job, step, operation, m.id⟩ := by
  obtain ⟨row, sop, event, hrow, hsop, hevent, hkind, -, -⟩ := begin_holds h
  refine ⟨row, sop, event, (Db.readJob_ok hrow).1, hsop, hevent, ?_⟩
  rw [Db.definitionFor, ok_present] at hsop
  obtain ⟨d, hd, rfl⟩ := Option.map_eq_some_iff.1 hsop
  exact hv d (List.mem_of_find?_eq_some hd) event (stepOf_ok hevent).1 hkind

/-- A claim that is made is the only one of its step. -/
theorem begin_alone {ps : Processes} {job step cause operation : String} {owner : Owner} {m : Mint}
    (hi : Inv s) (h : s.exec (.begin ps job step cause operation owner m) = .ok s')
    (hu : s.Unshared (.begin ps job step cause operation owner m)) :
    s'.Alone ⟨job, step, operation, m.id⟩ := by
  have hfresh : m.id ∉ s.minted := by
    simp only [St.exec, ok_bind] at h
    obtain ⟨⟨⟩, hmint, -⟩ := h
    exact (mint_ok hmint).2.2
  intro sop x sop' y hx hy hid hstep
  rcases new_holds h hx with hold | ⟨row, d, event, hrow, hd, hevent, -, hxkey, -⟩
  · rw [show m.id = x.2.actionId from hid.symm] at hfresh
    exact absurd (hi.actions _ _ _ hold) hfresh
  rcases new_holds h hy with hold | ⟨row₁, d₁, event₁, hrow₁, hd₁, hevent₁, -, hykey, -⟩
  · exact absurd hstep (hu sop' y hold)
  -- both stand under the first track of the step
  cases hrow.symm.trans hrow₁
  cases hd.symm.trans hd₁
  cases hevent.symm.trans hevent₁
  obtain ⟨row', hrow', -, hxmem⟩ := hx
  obtain ⟨row'', hrow'', -, hymem⟩ := hy
  cases hrow'.symm.trans hrow''
  exact Table.ext_key hymem hxmem (hykey.trans hxkey.symm)

/-! ## Ending a claim -/

theorem Inv.read (hi : Inv s) {job : String} {row : Job} (h : s.db.jobs.find (uuid job) = some row) :
    s.db.readJob job = .ok row := by
  have hread := hi.readJob h
  rw [Db.readJob, ok_present, (hi.uuids _ (hi.jobs _ row h).1).2] at hread
  rw [Db.readJob, ok_present]
  exact hread

/-- The process that made the claim is gone, as far as it can be inspected. -/
def St.Exited (s : St) (ps : Processes) (c : Claimed) : Prop :=
  ∀ sop x owner, s.db.Holds (uuid c.job) sop x → x.2.actionId = c.actionId →
    x.2.owner = some owner → ∃ generation, ps owner.pid = .ok generation ∧
      generation ≠ some owner.generation

/-- A pending claim whose process is gone can be reconciled, from a source it was not reconciled
from before. -/
theorem reconcile_goes (hi : Inv s) (hp : s.Pending c) (hjob : isUuid c.job = true)
    (hcause : isSourceId cause = true) {ps : Processes} (hps : s.Exited ps c) {read : ReadReceipt}
    (hread : read.effect = "absent" ∧ isSourceId read.evidenceId = true)
    (hnew : s.db.events.find (uuid c.job, cause, c.step, .reconciledAbsent) = none) :
    ∃ db', actionReconcileAbsent ps s.db c.job c.step cause c.actionId read = .ok db' := by
  obtain ⟨sop, x, hx, hid, hstep, -, howner⟩ := hp
  obtain ⟨owner, howner⟩ := Option.isSome_iff_exists.1 howner
  obtain ⟨generation, hgen, hne⟩ := hps sop x owner hx hid howner
  have hactionId := (hi.uuids _ (hi.actions _ _ _ hx)).1
  rw [hid] at hactionId
  obtain ⟨row, hrow, -, hmem⟩ := hx
  have hrowid : row.id = uuid c.job := Table.find_key hrow
  have hfound := hi.found hrow hmem
  rw [hid] at hfound
  have hgone : ownerGone ps c.step x.2 = .ok () := by
    simp [ownerGone, howner, present, hgen, check, bind, Except.bind, hne]
  have hwrite : ∀ row₁ : Job, (s.db.putJob row₁).addEvent
      { job := row.id, event := c.step, kind := .reconciledAbsent, sourceId := cause,
        readEvidenceId := some read.evidenceId } = .ok (s.db.wrote row₁
          ⟨row.id, c.step, .reconciledAbsent, cause, some read.evidenceId, false⟩) := by
    intro row₁
    rw [Db.putJob_addEvent_ok]
    exact ⟨by rw [EventRow.key, hrowid]; exact hnew, rfl⟩
  refine ⟨s.db.wrote { row with pending := row.pending.erase x.1 }
    ⟨row.id, c.step, .reconciledAbsent, cause, some read.evidenceId, false⟩, ?_⟩
  unfold actionReconcileAbsent
  simp only [check, hjob, hcause, hactionId, hread.1, hread.2, hi.read hrow, hfound, hstep, hgone,
    hwrite, present, Option.filter, bind, Except.bind, decide_true, Bool.and_self, if_true]

/-- A claim that is kept can be given its receipt, under any source or under the one it has. -/
theorem receipt_goes (hi : Inv s) (hk : s.Kept c) (hl : s.Live c) (hjob : isUuid c.job = true)
    (hmint : c.actionId ∈ s.minted) (hcause : isSourceId cause = true)
    (hsource : ∀ r, s.db.receipts.find c.actionId = some r → r.sourceId = cause) :
    ∃ db', finishReceipt s.db c.job c.step cause c.actionId = .ok db' := by
  obtain ⟨hactionId, huuid⟩ := hi.uuids _ hmint
  rcases hk with ⟨sop, x, hx, hid, hstep, hstate, -⟩ | ⟨⟨cause', ⟨r, hr, hrjob, hrstep, -⟩, -⟩, hgone⟩
  · obtain ⟨row, hrow, -, hmem⟩ := hx
    have hfound := hi.found hrow hmem
    rw [hid] at hfound
    refine ⟨s.db.receipted ⟨uuid c.actionId, row.id, row.sop, c.step, cause⟩, ?_⟩
    unfold finishReceipt
    simp only [check, hjob, hcause, hactionId, hi.read hrow, hfound, hstep, hstate, bind,
      Except.bind, decide_true, Bool.and_self, if_true]
    rfl
  · obtain ⟨row, sop, event, hrow, -⟩ := hl
    have hrowid : row.id = uuid c.job := Table.find_key hrow
    have hnone : row.actions.find? (·.2.actionId = c.actionId) = none := by
      rw [List.find?_eq_none]
      intro x hx hid
      exact hgone _ row.sop x ⟨row, hrow, rfl, Job.mem_actions.1 hx⟩ (by simpa using hid)
    refine ⟨s.db, ?_⟩
    unfold finishReceipt
    simp only [check, hjob, hcause, hactionId, hi.read hrow, hnone, huuid, hr, hrjob, hrowid, hrstep,
      hsource r hr, bind, Except.bind, Option.any_some, decide_true, Bool.and_self, if_true]
    rfl

/-- What the first transaction leaves: a receipt of the claim. -/
theorem receipt_left (hi : Inv s) (hmint : c.actionId ∈ s.minted) {db' : Db}
    (hsource : ∀ r, s.db.receipts.find c.actionId = some r → r.sourceId = cause)
    (h : finishReceipt s.db c.job c.step cause c.actionId = .ok db') :
    ({ s with db := db' } : St).Receipted c cause := by
  obtain ⟨-, huuid⟩ := hi.uuids _ hmint
  obtain ⟨-, -, row, hread, hcase⟩ := finishReceipt_ok h
  obtain ⟨hrow, hrowid⟩ := Db.readJob_ok hread
  rcases hcase with ⟨r, hr, hrjob, hrstep, hrcause, rfl⟩ | ⟨track, action, hfound, hstep, -, rfl⟩
  · rw [huuid] at hr
    exact ⟨r, hr, hrjob.trans hrowid, hrstep, hrcause⟩
  · have hid : action.actionId = c.actionId := by simpa using List.find?_some hfound
    have hx : s.db.Holds (uuid c.job) row.sop (track, action) :=
      ⟨row, hrow, rfl, Job.mem_actions.1 (List.mem_of_find?_eq_some hfound)⟩
    rw [huuid, hrowid]
    cases hr : s.db.receipts.find c.actionId with
    | some r =>
      obtain ⟨hrjob, -, hrstep⟩ := (hi.receipts r (Table.find_mem hr)).2.2 _ _ _ hx
        (hid.trans (Table.find_key hr).symm)
      refine ⟨r, ?_, hrjob, hrstep.trans hstep, hsource r hr⟩
      rw [show s.db.receipted ⟨c.actionId, uuid c.job, row.sop, c.step, cause⟩ = s.db by
        rw [Db.receipted, hr]; rfl]
      exact hr
    | none =>
      refine ⟨⟨c.actionId, uuid c.job, row.sop, c.step, cause⟩, ?_, rfl, rfl, rfl⟩
      rw [show s.db.receipted ⟨c.actionId, uuid c.job, row.sop, c.step, cause⟩ =
        { s.db with receipts := s.db.receipts.put ⟨c.actionId, uuid c.job, row.sop, c.step, cause⟩ } by
          rw [Db.receipted, hr]; rfl]
      exact Table.find_put_self s.db.receipts ⟨c.actionId, uuid c.job, row.sop, c.step, cause⟩

/-- A claim that is kept and has its receipt can be recorded, or is recorded. -/
theorem record_goes (hi : Inv s) (hk : s.Kept c) (hl : s.Live c) (ha : s.Alone c)
    (hjob : isUuid c.job = true) (hcause : isSourceId cause = true) (hr : s.Receipted c cause)
    (verified : Except (List Fault) Bool) (m : Mint) :
    ∃ db' rec, jobRecord s.db c.job c.step .observation cause verified m = .ok (db', rec) := by
  obtain ⟨row, sop, event, hrow, hsop, hevent, hvia⟩ := hl
  obtain ⟨r, hr, hrjob, hrstep, hrcause⟩ := hr
  have hrowid : row.id = uuid c.job := Table.find_key hrow
  by_cases hdup : (s.db.events.find (row.id, cause, c.step, .observation)).isSome
  · refine ⟨s.db, .already, ?_⟩
    unfold jobRecord
    simp only [check, hjob, hcause, hi.read hrow, hsop, hevent, bind, Except.bind, Kind.row, hdup,
      if_true]
    rfl
  · rcases hk with ⟨sop', x, hx, hid, hstep, -⟩ | ⟨⟨cause', ⟨r', hr', -, -, hr'cause⟩, he⟩, -⟩
    swap
    · -- it is recorded under its receipt, which has this source
      cases hr.symm.trans hr'
      rw [hrowid, ← hrcause, hr'cause] at hdup
      exact absurd he hdup
    obtain ⟨row₁, hrow₁, rfl, hmem⟩ := hx
    cases hrow.symm.trans hrow₁
    obtain ⟨-, hrsop, -⟩ := (hi.receipts r (Table.find_mem hr)).2.2 _ _ _
      ⟨row, hrow, rfl, hmem⟩ (hid.trans (Table.find_key hr).symm)
    have huuid : uuid x.2.actionId = x.2.actionId :=
      (hi.uuids _ (hi.actions _ _ _ ⟨row, hrow, rfl, hmem⟩)).2
    -- the first action of the step is the claim
    have hfound : row.actions.find? (·.2.step = c.step) = some x := by
      have hsome : (row.actions.find? (·.2.step = c.step)).isSome := by
        rw [List.find?_isSome]
        exact ⟨x, Job.mem_actions.2 hmem, by simpa using hstep⟩
      obtain ⟨y, hy⟩ := Option.isSome_iff_exists.1 hsome
      rw [hy, ha row.sop x row.sop y ⟨row, hrow, rfl, hmem⟩
        ⟨row, hrow, rfl, Job.mem_actions.1 (List.mem_of_find?_eq_some hy)⟩ hid
        (by simpa using List.find?_some hy)]
    have hknown : sourceKnown s.db row event c.step cause verified = .ok () := by
      unfold sourceKnown
      rw [if_pos hvia, ok_check, hfound, Option.any_some, huuid, hid, hr, Option.any_some]
      simp [hrjob, hrowid, hrsop, hrstep, hrcause]
    obtain ⟨-, hname, -⟩ := stepOf_ok hevent
    rw [Option.not_isSome_iff_eq_none] at hdup
    obtain ⟨db', rec, hobserve⟩ : ∃ db' rec,
        observe s.db row event cause m.now = .ok (db', rec) :=
      ⟨_, _, observe_ok.2 ⟨hname ▸ hdup, rfl, rfl⟩⟩
    refine ⟨db', rec, ?_⟩
    unfold jobRecord
    simp only [check, hjob, hcause, hi.read hrow, hsop, hevent, bind, Except.bind, Kind.row, hdup,
      hknown, if_true]
    exact hobserve

end One

end CarbonRuntime.Jobs
