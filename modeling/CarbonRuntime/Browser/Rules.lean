import CarbonRuntime.Browser.Sound

/-!
# One rule for each program of the bridge

Each program against `moving`: the writes it makes are moves, and what it comes to. A lookup may bind the file it
finds (`Found`), and a binding that is not refused (`Bindable`) leaves `Custody.bound`. A capture is only reached
where no record is under the identity, so it never merges.
-/

open CarbonRuntime.Core CarbonRuntime.Stream

namespace CarbonRuntime.Browser

section effects
variable {ρ α : Type} {P : Proto (sig ρ)} {X : List Fault → Custody ρ → Prop} {s : Custody ρ}

@[simp] theorem wp_fetch {Q : Custody ρ → Custody ρ → Prop} : Prog.wp P fetch Q X s ↔ Q s s :=
  Prog.wp_get (𝔖 := sig ρ)

@[simp] theorem wp_write (a : Act ρ) {Q : Unit → Custody ρ → Prop} :
    Prog.wp P (write a) Q X s ↔ P.ok a s ∧ (P.inv (a.apply s) → Q () (a.apply s)) :=
  Prog.wp_perform (𝔖 := sig ρ) a

@[simp] theorem wp_raise (e : List Fault) {Q : α → Custody ρ → Prop} : Prog.wp P (raise e) Q X s ↔ X e s :=
  Prog.wp_throw (𝔖 := sig ρ) e

@[simp] theorem wp_refuse (faults : List Fault) {Q : Unit → Custody ρ → Prop} :
    Prog.wp P (refuse faults) Q X s ↔ (faults = [] → Q () s) ∧ (faults ≠ [] → X faults s) := by
  unfold refuse
  split
  · rename_i h
    simp [h]
  · rename_i h
    simp [h]

@[simp] theorem wp_require (holds : Bool) (f : Fault) {Q : Unit → Custody ρ → Prop} :
    Prog.wp P (require holds f) Q X s ↔ (holds = true → Q () s) ∧ (holds = false → X [f] s) := by
  unfold require
  cases holds <;> simp

@[simp] theorem wp_lift (x : Except Fault α) {Q : α → Custody ρ → Prop} :
    Prog.wp P (lift x) Q X s ↔ (∀ a, x = .ok a → Q a s) ∧ ∀ f, x = .error f → X [f] s := by
  cases x with
  | ok a => simp [lift]
  | error f => simp [lift]

end effects

variable {ρ G : Type} {K : Bridge ρ G} {call : Call ρ G} {d₀ s s' : Custody ρ} {c actorId m id : String}
  {ids : List String} {X : List Fault → Custody ρ → Prop}

/-! ## Programs that write nothing -/

@[simp] theorem wp_read {Q : Option (BrowserRecord ρ) → Custody ρ → Prop} :
    Prog.wp (moving K call d₀) (read K c m) Q X s ↔
      (pathFaults K.js ⟨c, m, 0⟩ = [] → Q (s.records.find ⟨c, m, 0⟩) s) ∧
        (pathFaults K.js ⟨c, m, 0⟩ ≠ [] → X (pathFaults K.js ⟨c, m, 0⟩) s) := by
  simp only [read, Prog.wp_bind, wp_refuse, wp_fetch, Prog.wp_pure]

@[simp] theorem wp_fileMap {Q : Table Staged.attachmentId → Custody ρ → Prop} :
    Prog.wp (moving K call d₀) (fileMap K c) Q X s ↔
      (componentFaults K.js "unit_id" c = [] → Q (s.filesOf c) s) ∧
        (componentFaults K.js "unit_id" c ≠ [] → X (componentFaults K.js "unit_id" c) s) := by
  simp only [fileMap, Prog.wp_bind, wp_refuse, wp_fetch, Prog.wp_pure]

theorem wp_listing {Q : List (BrowserRecord ρ) → Custody ρ → Prop}
    (hQ : ∀ l : List (BrowserRecord ρ), l.Perm s.records.rows → Q l s) :
    Prog.wp (moving K call d₀) listing Q X s := by
  refine (Prog.wp_ask (𝔖 := sig ρ) .listing).2 fun s₁ hs l hl _ => ?_
  cases (show s₁ = s from hs)
  exact hQ l hl

theorem wp_evidence {references : List ρ} {Q : List Fault → Custody ρ → Prop} (hQ : ∀ faults, Q faults s) :
    Prog.wp (moving K call d₀) (evidence c references) Q X s := by
  refine (Prog.wp_ask (𝔖 := sig ρ) (.evidence c references)).2 fun s₁ hs faults _ _ => ?_
  cases (show s₁ = s from hs)
  exact hQ faults

theorem wp_recordsIn {Q : List (BrowserRecord ρ) → Custody ρ → Prop}
    (hQ : ∀ l : List (BrowserRecord ρ), l.Perm s.records.rows → Q (l.filter (·.conversationId = c)) s)
    (hX : ∀ e, X e s) : Prog.wp (moving K call d₀) (recordsIn K c) Q X s := by
  simp only [recordsIn, Prog.wp_bind, wp_refuse, Prog.wp_pure]
  exact ⟨fun _ => wp_listing hQ, fun _ => hX _⟩

/-- The bytes are those of the digest, and of the size. -/
def Intact (K : Bridge ρ G) (a : Attachment) (bytes : List Nat) : Prop :=
  bytes.length = a.bytes ∧ K.digest bytes = a.sha256

theorem wp_readBytes {a : Attachment} {Q : List Nat → Custody ρ → Prop} (hQ : ∀ bytes, Intact K a bytes → Q bytes s)
    (hX : ∀ e, X e s) : Prog.wp (moving K call d₀) (readBytes K a) Q X s := by
  simp only [readBytes, Prog.wp_bind, wp_fetch]
  split
  · exact (wp_raise _).2 (hX _)
  · simp only [Prog.wp_bind, wp_require, Prog.wp_pure, Bool.and_eq_true, decide_eq_true_eq]
    exact ⟨fun h => hQ _ h, fun _ => hX _⟩

/-! ## Binding -/

/-- The files are of this actor and its message carries them. -/
structure Bindable (K : Bridge ρ G) (s : Custody ρ) (c actorId : String) (ids : List String) (m : String) : Prop where
  bounded : boundedIds ids = true
  unit : componentFaults K.js "unit_id" c = []
  actor : ∀ id ∈ ids, ∃ f, (s.filesOf c).find id = some f ∧ f.actor.id = actorId
  path : pathFaults K.js ⟨c, m, 0⟩ = []
  captured : capturedFileReferences (s.records.find ⟨c, m, 0⟩) actorId ids = true

/-- Every one of the files is bound already. -/
def Custody.allBound (d : Custody ρ) (c : String) (ids : List String) : Bool :=
  ids.all fun id => ((d.filesOf c).find id).any (·.boundMessageId.isSome)

/-- The custody after a binding: nothing is written where every file is bound. -/
def Custody.bound (d : Custody ρ) (c : String) (ids : List String) (m : String) : Custody ρ :=
  if d.allBound c ids then d else d.bindTo c ids m

theorem bound_nil (d : Custody ρ) (c m : String) : d.bound c [] m = d := rfl

theorem find_bound (d : Custody ρ) (c : String) (ids : List String) (m c' k : String) :
    ((d.bound c ids m).filesOf c').find k =
      ((d.filesOf c').find k).map fun f => if c' = c ∧ k ∈ ids then f.boundTo m else f := by
  unfold Custody.bound
  split
  · rename_i hall
    cases hf : (d.filesOf c').find k with
    | none => rfl
    | some f =>
      rw [Option.map_some]
      split
      · rename_i hin
        obtain ⟨rfl, hin⟩ := hin
        have hb := List.all_eq_true.1 hall k hin
        rw [hf] at hb
        obtain ⟨m', hm'⟩ := Option.isSome_iff_exists.1 (show f.boundMessageId.isSome = true from hb)
        have hsame : f.boundTo m = f := by
          unfold Staged.boundTo
          rw [hm']
          cases f
          cases hm'
          rfl
        rw [hsame]
      · rfl
  · exact find_bindTo d c ids m c' k

/-- Nothing but the threads is written. -/
def OnlyThreads (s s' : Custody ρ) : Prop := s' = { s with threads := s'.threads }

theorem OnlyThreads.records (h : OnlyThreads s s') : s'.records = s.records := by rw [h]

theorem bound_onlyThreads (d : Custody ρ) (c : String) (ids : List String) (m : String) :
    OnlyThreads d (d.bound c ids m) := by
  unfold Custody.bound
  split <;> rfl

theorem capturedFileReferences_some {r : Option (BrowserRecord ρ)} (h : capturedFileReferences r actorId ids = true) :
    ∃ q, r = some q ∧ q.direction = .inbound ∧ q.senderId = actorId ∧ ∀ id ∈ ids, q.carries id = true := by
  unfold capturedFileReferences at h
  obtain ⟨q, hr, h⟩ := (Option.any_eq_true _ _).1 h
  simp only [Bool.and_eq_true, decide_eq_true_eq, List.all_eq_true] at h
  exact ⟨q, hr, h.1.1, h.1.2, h.2⟩

theorem Bindable.move (h : Bindable K s c actorId ids m) :
    Move K call s (.thread (s.withFiles c (ids.foldl (bindOne m) (s.filesOf c)))) := by
  obtain ⟨r, hr, hdir, hsender, hcar⟩ := capturedFileReferences_some h.captured
  refine .bound c ids r m hr hdir hcar fun id hid f hf => ?_
  obtain ⟨f', hf', hactor⟩ := h.actor id hid
  obtain rfl := Option.some.inj (hf'.symm.trans hf)
  rw [hactor, hsender]

theorem wp_bindBrowserAttachments {Q : Unit → Custody ρ → Prop}
    (hQ : ids = [] ∨ Bindable K s c actorId ids m → Q () (s.bound c ids m))
    (hX : ids ≠ [] → ¬ Bindable K s c actorId ids m → ∀ e, X e s) :
    Prog.wp (moving K call d₀) (bindBrowserAttachments K c actorId ids m) Q X s := by
  unfold bindBrowserAttachments
  split
  · rename_i hnil
    subst hnil
    exact (Prog.wp_pure _).2 (hQ (.inl rfl))
  · rename_i hne
    simp only [Prog.wp_bind, wp_require, wp_fileMap]
    refine ⟨fun hb => ⟨fun hu => ?_, fun hu => hX hne (fun h => hu h.unit) _⟩,
      fun hb => hX hne (fun h => by rw [h.bounded] at hb; cases hb) _⟩
    split
    · rename_i id hfind
      refine (wp_raise _).2 (hX hne (fun h => ?_) _)
      obtain ⟨f, hf, hactor⟩ := h.actor id (List.mem_of_find?_eq_some hfind)
      have hbad := List.find?_some hfind
      simp [hf, hactor] at hbad
    · rename_i hfind
      simp only [Prog.wp_bind, wp_read, wp_require]
      refine ⟨fun hp => ⟨fun hc => ?_, fun hc => hX hne (fun h => by rw [h.captured] at hc; cases hc) _⟩,
        fun hp => hX hne (fun h => hp h.path) _⟩
      have hable : Bindable K s c actorId ids m := by
        refine ⟨hb, hu, fun id hid => ?_, hp, hc⟩
        have hok := List.find?_eq_none.1 hfind id hid
        simp only [Bool.not_eq_true, Bool.not_eq_false', Option.any_eq_true, decide_eq_true_eq] at hok
        obtain ⟨f, hf, hactor⟩ := hok
        exact ⟨f, hf, hactor⟩
      have hQ := hQ (.inr hable)
      unfold Custody.bound Custody.allBound at hQ
      split
      · rename_i hall
        rw [if_pos hall] at hQ
        exact (Prog.wp_pure _).2 hQ
      · rename_i hall
        rw [if_neg hall] at hQ
        simp only [writeFiles, Prog.wp_bind, wp_refuse, wp_fetch, wp_write]
        exact ⟨fun _ => ⟨hable.move, fun _ => hQ⟩, fun hu' => absurd hu hu'⟩

/-! ## Looking a file up -/

/-- What a lookup answers: the staged file, bound wherever a message of its sender carries it, or an attachment of an
accepted output. -/
inductive Found (s s' : Custody ρ) (c id : String) (h : Held) : Prop
  | staged (f : Staged) : (s'.filesOf c).find id = some f → h = f.held → OnlyThreads s s' →
      (f.boundMessageId = none → ∀ r ∈ s.records.rows, r.conversationId = c → carriesStaged f r = false) →
      Found s s' c id h
  | output (r : BrowserRecord ρ) (a : Attachment) : r ∈ s.records.rows → r.conversationId = c →
      acceptedBrowserOutput r = true → a ∈ r.attachments → a.attachmentId = some id →
      h = ⟨a, id, some r.messageId, none⟩ → s' = s → Found s s' c id h

theorem wp_attachmentIn {Q : Held → Custody ρ → Prop} (hQ : ∀ h s', Found s s' c id h → Q h s') (hX : ∀ e, X e s) :
    Prog.wp (moving K call d₀) (attachmentIn K c id) Q X s := by
  simp only [attachmentIn, Prog.wp_bind, wp_refuse, wp_fileMap]
  refine ⟨fun _ => ⟨fun hu => ?_, fun _ => hX _⟩, fun _ => hX _⟩
  cases hf : (s.filesOf c).find id with
  | some f =>
    have hid : f.attachmentId = id := Table.find_key hf
    dsimp only
    split
    · rename_i hb
      refine (Prog.wp_pure _).2 (hQ _ _ (.staged f hf rfl rfl fun hnone => ?_))
      rw [hnone] at hb
      cases hb
    · rw [Prog.wp_bind]
      refine wp_recordsIn (fun l hl => ?_) hX
      split
      · rename_i r hr
        simp only [Prog.wp_bind]
        refine wp_bindBrowserAttachments (fun _ => ?_) fun _ _ => hX
        rw [wp_fileMap]
        refine ⟨fun _ => (Prog.wp_pure _).2 (hQ _ _ ?_), fun hne => absurd hu hne⟩
        have hfind : ((s.bound c [id] r.messageId).filesOf c).find id = some (f.boundTo r.messageId) := by
          rw [find_bound, hf]
          simp
        rw [hfind]
        refine .staged _ hfind rfl (bound_onlyThreads s c [id] r.messageId) fun hnone => ?_
        simp [Staged.boundTo] at hnone
      · rename_i hnone
        refine (Prog.wp_pure _).2 (hQ _ _ (.staged f hf rfl rfl fun _ r hr hc => ?_))
        have hnot := List.find?_eq_none.1 hnone r (List.mem_filter.2 ⟨hl.mem_iff.2 hr, decide_eq_true hc⟩)
        exact Bool.eq_false_iff.2 hnot
  | none =>
    simp only [Prog.wp_bind]
    refine wp_recordsIn (fun l hl => (wp_lift _).2 ⟨fun h hh => hQ _ _ ?_, fun _ _ => hX _⟩) hX
    obtain ⟨r, hr, ha⟩ := List.exists_of_findSome?_eq_some (ok_present.1 hh)
    obtain ⟨hr, hc⟩ := List.mem_filter.1 hr
    split at ha
    · rename_i hout
      obtain ⟨a, hfind, rfl⟩ := Option.map_eq_some_iff.1 ha
      have hat := List.find?_some hfind
      exact .output r a (hl.mem_iff.1 hr) (of_decide_eq_true hc) hout (List.mem_of_find?_eq_some hfind)
        (of_decide_eq_true hat) rfl rfl
    · cases ha

/-! ## Resolving the files of a submission -/

/-- The attachment is of the file of this id, which is of this actor. -/
def Resolves (s : Custody ρ) (c actorId id : String) (a : Attachment) : Prop :=
  ∃ f, (s.filesOf c).find id = some f ∧ f.actor.id = actorId ∧ a = f.attachment

theorem wp_resolveOne {Q : Attachment → Custody ρ → Prop} (hQ : ∀ a, Resolves s c actorId id a → Q a s)
    (hX : ∀ e, X e s) : Prog.wp (moving K call d₀) (resolveOne K c actorId id) Q X s := by
  simp only [resolveOne, Prog.wp_bind, wp_fileMap]
  refine ⟨fun _ => ?_, fun _ => hX _⟩
  split
  · exact (wp_raise _).2 (hX _)
  · rename_i f hf
    simp only [Prog.wp_bind, wp_require, decide_eq_true_eq]
    refine ⟨fun hactor => wp_readBytes (fun _ _ => ?_) hX, fun _ => hX _⟩
    exact (Prog.wp_pure _).2 (hQ _ ⟨f, hf, hactor, rfl⟩)

/-- The attachments are those of the files of these ids. -/
structure Resolved (s : Custody ρ) (c actorId : String) (ids : List String) (found : List Attachment) : Prop where
  attached : ∀ a ∈ found, ∃ id ∈ ids, Resolves s c actorId id a
  named : ∀ id ∈ ids, ∃ a ∈ found, Resolves s c actorId id a

theorem Resolved.snoc {found : List Attachment} {a : Attachment} (h : Resolved s c actorId ids found)
    (ha : Resolves s c actorId id a) : Resolved s c actorId (ids ++ [id]) (found ++ [a]) where
  attached b hb := by
    rcases List.mem_append.1 hb with hb | hb
    · obtain ⟨id', hid, hr⟩ := h.attached b hb
      exact ⟨id', List.mem_append_left _ hid, hr⟩
    · obtain rfl := List.mem_singleton.1 hb
      exact ⟨id, by simp, ha⟩
  named id' hid := by
    rcases List.mem_append.1 hid with hid | hid
    · obtain ⟨b, hb, hr⟩ := h.named id' hid
      exact ⟨b, List.mem_append_left _ hb, hr⟩
    · obtain rfl := List.mem_singleton.1 hid
      exact ⟨a, by simp, ha⟩

/-- Where the loop stands: what is found is of the ids gone through, and nothing is written. -/
def Resolving (s : Custody ρ) (c actorId : String) (ids : List String) (found : List Attachment)
    (rest : List String) (s₁ : Custody ρ) : Prop :=
  s₁ = s ∧ ∃ done, ids = done ++ rest ∧ Resolved s c actorId done found

theorem wp_resolveBrowserAttachments {Q : List Attachment → Custody ρ → Prop}
    (hQ : ∀ found, Resolved s c actorId ids found → Q found s) (hX : ∀ e, X e s) :
    Prog.wp (moving K call d₀) (resolveBrowserAttachments K c actorId ids) Q X s := by
  simp only [resolveBrowserAttachments, Prog.wp_bind, wp_require]
  refine ⟨fun _ => ?_, fun _ => hX _⟩
  have hfold := Prog.wp_fold (P := moving K call d₀) (X := X) (J := Resolving s c actorId ids)
    (fun found id => do
      let a ← resolveOne K c actorId id
      pure (found ++ [a])) (fun found id rest s₁ hj => ?_) ids [] s ⟨rfl, [], rfl, ⟨by simp, by simp⟩⟩
  · refine Prog.wp_mono _ hfold (fun found s₁ hj => ?_) fun _ _ h => h
    obtain ⟨rfl, done, hdone, hall⟩ := hj
    rw [List.append_nil] at hdone
    exact hQ found (hdone ▸ hall)
  · obtain ⟨rfl, done, hdone, hall⟩ := hj
    rw [Prog.wp_bind]
    refine wp_resolveOne (fun a ha => (Prog.wp_pure _).2 ⟨rfl, done ++ [id], ?_, hall.snoc ha⟩) hX
    rw [hdone, List.append_assoc, List.singleton_append]

/-! ## Capturing -/

theorem wp_advanceCursor {position : String} {Q : Unit → Custody ρ → Prop}
    (hQ : ∀ s', s'.records = s.records → s'.threads = s.threads → Q () s') (hX : ∀ e, X e s) :
    Prog.wp (moving K call d₀) (advanceCursor K c position) Q X s := by
  simp only [advanceCursor, Prog.wp_bind, wp_refuse, wp_fetch]
  refine ⟨fun _ => ?_, fun _ => hX _⟩
  split
  · exact (Prog.wp_pure _).2 (hQ s rfl rfl)
  · exact (wp_write _).2 ⟨.plain _ rfl, fun _ => hQ _ rfl rfl⟩

theorem wp_capture [DecidableEq ρ] {r : BrowserRecord ρ} {raw position : String} {Q : BrowserRecord ρ → Custody ρ → Prop}
    (hnone : s.records.find r.id = none) (hsub : Submission s { r with raw := some (K.rawFile r.id) })
    (hby : SubmittedBy K call { r with raw := some (K.rawFile r.id) })
    (hQ : ∀ s', s'.records = s.records.put { r with raw := some (K.rawFile r.id) } → s'.threads = s.threads →
      Q { r with raw := some (K.rawFile r.id) } s') (hX : ∀ e s', X e s') :
    Prog.wp (moving K call d₀) (capture K r raw position) Q X s := by
  simp only [capture, Prog.wp_bind, wp_refuse, wp_fetch, wp_write, Prog.wp_andFinally]
  refine ⟨fun _ => ⟨fun _ => ⟨.plain _ rfl, fun _ => ⟨.plain _ rfl, fun _ => ?_⟩⟩, fun _ => hX _ _⟩, fun _ => hX _ _⟩
  simp only [captureWrite, Prog.wp_bind, wp_fetch]
  -- No record is under the identity, so the file is written and nothing merged.
  have hnone : ((Act.raw r.id raw).apply ((Act.seq (s.seq + 1)).apply s)).records.find
      (BrowserRecord.id { r with raw := some (K.rawFile r.id) }) = none := hnone
  rw [hnone]
  simp only [Prog.wp_bind, wp_write, Prog.wp_pure]
  refine ⟨.record _ hnone (hsub.congr fun _ => rfl) hby, fun _ => ⟨.plain _ rfl, fun _ => ?_⟩⟩
  exact wp_advanceCursor (fun s' hr ht => hQ s' hr ht) fun _ => hX _ _

/-! ## The calls -/

theorem browserConversationId_ok {account key conversation : String}
    (h : browserConversationId account key = .ok conversation) :
    conversation = conversationOf account key ∧ isTicketKey key = true := by
  unfold browserConversationId at h
  obtain ⟨_, _, h⟩ := ok_bind.1 h
  obtain ⟨hkey, h⟩ := ok_check_bind.1 h
  exact ⟨(Except.ok.inj h).symm, hkey⟩

theorem wp_checkGrant {grant : G} {key : String} {operation : Operation} {Q : String → Custody ρ → Prop}
    (hQ : isTicketKey key = true → K.authorize grant key operation = true → Q (conversationOf K.account key) s)
    (hX : ∀ e, X e s) : Prog.wp (moving K call d₀) (checkGrant K grant key operation) Q X s := by
  simp only [checkGrant, Prog.wp_bind, wp_lift, wp_require, Prog.wp_pure]
  refine ⟨fun conversation hok => ⟨fun ha => ?_, fun _ => hX _⟩, fun _ _ => hX _⟩
  obtain ⟨rfl, hkey⟩ := browserConversationId_ok hok
  exact hQ hkey ha

def BrowserPacket.files (p : BrowserPacket ρ) : List String := p.attachmentIds.getD []

def Bridge.conversation (K : Bridge ρ G) (p : BrowserPacket ρ) : String := conversationOf K.account p.ticketKey

def Bridge.message (K : Bridge ρ G) (p : BrowserPacket ρ) : String :=
  messageOf K.account p.ticketKey p.submissionId

/-- Where the submission of a packet is kept. -/
def Bridge.place (K : Bridge ρ G) (p : BrowserPacket ρ) : Identity := ⟨K.conversation p, K.message p, 0⟩

theorem accepts_submission {p : BrowserPacket ρ} {as : List Attachment} {raw : Option String}
    (h : Resolved s (K.conversation p) p.consultant.id p.files as) :
    Submission s { record K.agent K.account p with attachments := as, raw } where
  revision := rfl
  source := rfl
  attached a ha := by
    obtain ⟨id, hid, f, hf, hactor, rfl⟩ := h.attached a ha
    exact ⟨f, Table.find_mem hf, rfl, hactor, (Table.find_key hf : f.attachmentId = id) ▸ hid⟩
  named id hid := by
    obtain ⟨_, ha, f, hf, -, rfl⟩ := h.named id hid
    have hid' : f.attachmentId = id := Table.find_key hf
    exact List.any_eq_true.2 ⟨f.attachment, ha, by simp [Staged.attachment, hid']⟩

section submit
variable [DecidableEq ρ] {grant : G} {p : BrowserPacket ρ}

/-- A submission that is not refused before it is looked up. -/
structure Admitted (K : Bridge ρ G) (grant : G) (p : BrowserPacket ρ) : Prop where
  packet : browserPacket K.js p = .ok p
  conversation : browserConversationId K.account p.ticketKey = .ok (K.conversation p)
  authorized : K.authorize grant p.ticketKey .submit = true
  account : p.account = K.account
  path : pathFaults K.js (K.place p) = []

theorem wp_submit {Q : BrowserRecord ρ × Bool → Custody ρ → Prop} (hcall : call = .submit grant p)
    (hrefused : ¬ Admitted K grant p → ∀ e, X e s)
    (hprior : ∀ prior, Admitted K grant p → s.records.find (K.place p) = some prior →
      if sameBrowserSubmission prior (record K.agent K.account p) p then
        (p.files = [] ∨ Bindable K s (K.conversation p) p.consultant.id p.files prior.messageId →
          Q (prior, true) (s.bound (K.conversation p) p.files prior.messageId)) ∧
        (p.files ≠ [] → ¬ Bindable K s (K.conversation p) p.consultant.id p.files prior.messageId → ∀ e, X e s)
      else X [submissionConflict p.submissionId] s)
    (hnew : Admitted K grant p → s.records.find (K.place p) = none →
      (∀ r s₁, Accepts K p r → s₁.records.find (K.place p) = some r →
        p.files = [] ∨ Bindable K s₁ (K.conversation p) p.consultant.id p.files (K.message p) →
        Q (r, false) (s₁.bound (K.conversation p) p.files (K.message p))) ∧ ∀ e s', X e s') :
    Prog.wp (moving K call d₀) (submit K grant p) Q X s := by
  simp only [submit, checkGrant, Prog.wp_bind, wp_lift, wp_require, wp_read, Prog.wp_pure, decide_eq_true_eq,
    decide_eq_false_iff_not]
  refine ⟨fun q hq => ⟨fun conversation hc => ⟨fun hauth => ⟨fun hacc => ⟨fun hpath => ?_, fun hpath => ?_⟩,
    fun hacc => ?_⟩, fun hauth => ?_⟩, fun f hc => ?_⟩, fun f hq => ?_⟩
  · obtain rfl := (browserPacket_ok hq).1
    obtain rfl := (browserConversationId_ok hc).1
    have hadm : Admitted K grant q := ⟨hq, hc, hauth, hacc, hpath⟩
    have hplace : (⟨conversationOf K.account q.ticketKey, (record K.agent K.account q).messageId, 0⟩ : Identity) =
        K.place q := rfl
    rw [hplace]
    cases hfind : s.records.find (K.place q) with
    | some prior =>
      have hprior := hprior prior hadm hfind
      simp only [Prog.wp_bind, wp_require, Prog.wp_pure]
      refine ⟨fun hsame => ?_, fun hdiff => ?_⟩
      · rw [if_pos hsame] at hprior
        exact wp_bindBrowserAttachments hprior.1 hprior.2
      · rw [hdiff] at hprior
        exact hprior
    | none =>
      obtain ⟨hok, hX⟩ := hnew hadm hfind
      simp only [Prog.wp_bind, Prog.wp_pure]
      refine wp_evidence fun faults => ?_
      simp only [wp_refuse]
      refine ⟨fun _ => wp_resolveBrowserAttachments (fun found hfound => ?_) fun _ => hX _ _, fun _ => hX _ _⟩
      refine wp_capture hfind (accepts_submission hfound) ⟨grant, q, hcall, hq, hauth, hacc, found, _, .refl _⟩
        (fun s₁ hrec _ => ?_) hX
      refine wp_bindBrowserAttachments (hok _ s₁ ⟨found, _, .refl _⟩ ?_) fun _ _ _ => hX _ _
      rw [hrec]
      exact Table.find_put_self _ _
  · obtain rfl := (browserPacket_ok hq).1
    obtain rfl := (browserConversationId_ok hc).1
    exact hrefused (fun h => hpath h.path) _
  · obtain rfl := (browserPacket_ok hq).1
    exact hrefused (fun h => hacc h.account) _
  · obtain rfl := (browserPacket_ok hq).1
    exact hrefused (fun h => by rw [h.authorized] at hauth; cases hauth) _
  · obtain rfl := (browserPacket_ok hq).1
    exact hrefused (fun h => by rw [h.conversation] at hc; cases hc) _
  · exact hrefused (fun h => by rw [h.packet] at hq; cases hq) _

end submit

/-! ### Staging and reading -/

theorem wp_putAttachment {i : Identity} {bytes : List Nat} {filename mime : String} {Q : Attachment → Custody ρ → Prop}
    (hQ : ∀ file s', s'.threads = s.threads →
      Q { file, mime, bytes := bytes.length, sha256 := K.digest bytes
          filename := if filename = "" then none else some filename } s') (hX : ∀ e, X e s) :
    Prog.wp (moving K call d₀) (putAttachment K i bytes filename mime) Q X s := by
  simp only [putAttachment, Prog.wp_bind, wp_refuse, wp_fetch]
  refine ⟨fun _ => ?_, fun _ => hX _⟩
  split
  · simp only [Prog.wp_bind, wp_write, Prog.wp_pure]
    exact ⟨.plain _ rfl, fun _ => hQ _ _ rfl⟩
  · exact (Prog.wp_pure _).2 (hQ _ _ rfl)

theorem wp_stageAttachment {grant : G} {key : String} {i : StageInput} {Q : Metadata × Bool → Custody ρ → Prop}
    (hcall : call = .stage grant key i) (hQ : ∀ a s', Q a s') (hX : ∀ e s', X e s') :
    Prog.wp (moving K call d₀) (stageAttachment K grant key i) Q X s := by
  simp only [stageAttachment, Prog.wp_bind]
  refine wp_checkGrant (fun _ hauth => ?_) fun _ => hX _ _
  simp only [stageBrowserAttachment, Prog.wp_bind, wp_refuse, wp_lift, wp_fileMap]
  refine ⟨fun _ => ⟨fun _ _ => ⟨fun _ _ => ⟨fun _ => ?_, fun _ => hX _ _⟩, fun _ _ => hX _ _⟩, fun _ _ => hX _ _⟩,
    fun _ => hX _ _⟩
  cases hfree : (s.filesOf (conversationOf K.account key)).find
      (attachmentIdOf K (conversationOf K.account key) i.uploadId) with
  | some previous =>
    simp only [Prog.wp_bind, wp_require]
    refine ⟨fun _ => wp_readBytes (fun _ _ => wp_attachmentIn (fun _ _ _ => ?_) fun _ => hX _ _) fun _ => hX _ _,
      fun _ => hX _ _⟩
    exact (Prog.wp_pure _).2 (hQ _ _)
  | none =>
    simp only [Prog.wp_bind]
    refine wp_putAttachment (fun file s' ht => ?_) fun _ => hX _ _
    have hfiles : ∀ c, s'.filesOf c = s.filesOf c := fun c => by rw [Custody.filesOf, ht]; rfl
    simp only [writeFiles, Prog.wp_bind, wp_fileMap, wp_refuse, wp_fetch, wp_write, Prog.wp_pure]
    refine ⟨fun _ => ⟨fun _ => ⟨?_, fun _ => hQ _ _⟩, fun _ => hX _ _⟩, fun _ => hX _ _⟩
    refine .staged _ _ ?_ rfl ⟨grant, key, i, file, hcall, rfl, hauth, rfl⟩
    rw [hfiles]
    exact hfree

theorem wp_readWanted {h : Held} {includeBytes : Bool} {Q : Option (List Nat) → Custody ρ → Prop}
    (hQ : ∀ bytes, (∀ b, bytes = some b → Intact K h.attachment b) → Q bytes s) (hX : ∀ e, X e s) :
    Prog.wp (moving K call d₀) (readWanted K h includeBytes) Q X s := by
  unfold readWanted
  split
  · rw [Prog.wp_bind]
    refine wp_readBytes (fun bytes hb => (Prog.wp_pure _).2 (hQ _ fun b he => ?_)) hX
    obtain rfl := Option.some.inj he
    exact hb
  · simp only [Prog.wp_bind, wp_fetch]
    split
    · exact (wp_raise _).2 (hX _)
    · simp only [Prog.wp_bind, wp_require, Prog.wp_pure]
      exact ⟨fun _ => hQ _ (fun b he => by cases he), fun _ => hX _⟩

theorem wp_readBrowserAttachment {includeBytes : Bool} {Q : Reading → Custody ρ → Prop}
    (hQ : ∀ h s' x, Found s s' c id h → x.metadata = metadata h →
      (∀ b, x.bytes = some b → Intact K h.attachment b) → Q x s') (hX : ∀ e s', X e s') :
    Prog.wp (moving K call d₀) (readBrowserAttachment K c id includeBytes) Q X s := by
  simp only [readBrowserAttachment, Prog.wp_bind]
  refine wp_attachmentIn (fun h s' hfound => ?_) fun _ => hX _ _
  rw [Prog.wp_handle, Prog.wp_bind]
  refine wp_readWanted (fun bytes hb => (Prog.wp_pure _).2 (hQ h s' _ hfound rfl hb)) fun e => ?_
  split
  · exact (Prog.wp_pure _).2 (hQ h s' _ hfound rfl fun b he => by cases he)
  · exact (wp_raise _).2 (hX _ _)

theorem wp_readAttachment {grant : G} {key : String} {includeBytes : Bool} {Q : Reading → Custody ρ → Prop}
    (hQ : ∀ h s' x, Found s s' (conversationOf K.account key) id h → x.metadata = metadata h →
      (∀ b, x.bytes = some b → Intact K h.attachment b) →
      (h.boundMessageId = none → ∀ actor, h.actor = some actor → K.actorOf grant = some actor.id) →
      Q x s') (hX : ∀ e s', X e s') :
    Prog.wp (moving K call d₀) (readAttachment K grant key id includeBytes) Q X s := by
  simp only [readAttachment, Prog.wp_bind]
  refine wp_checkGrant (fun _ _ => ?_) fun _ => hX _ _
  refine wp_readBrowserAttachment (fun h s' x hfound hmeta hb => ?_) hX
  simp only [wp_require, Prog.wp_pure]
  refine ⟨fun hgo => hQ h s' x hfound hmeta hb fun hnone actor hactor => ?_, fun _ => hX _ _⟩
  simp [hmeta, metadata, hnone, hactor] at hgo
  exact hgo.symm

end CarbonRuntime.Browser
