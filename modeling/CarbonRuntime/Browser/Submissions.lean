import CarbonRuntime.Core.LTS
import CarbonRuntime.Browser.Rules

/-!
# Submissions and their files, over every run of a bridge

The calls of a bridge in any order, each cut short anywhere by a death, and between them what the runtime does to the
same store: it writes its own replies, puts dispositions, releases and deliveries on the records, and keeps thread
records (`Touch`).

**Results.** `submission_once`: once a submission was answered, the same content is answered with the record there is
and other content is refused, whatever happened between, and neither writes a record. `attachments_staged`: what a
captured submission carries was staged by its sender for its conversation. `files_bound`: the files of an answered
submission are bound to a message of the sender for good. `bytes_answered`: bytes are given to who staged them, or of
a file that a captured submission or an accepted output carries, and they are those that were staged.
-/

open CarbonRuntime.Core CarbonRuntime.Stream

namespace CarbonRuntime.Browser

variable {ρ G : Type}

/-! ## The system -/

inductive Answer (ρ : Type)
  | submitted (r : BrowserRecord ρ) (duplicate : Bool)
  | staged (metadata : Metadata) (duplicate : Bool)
  | reading (x : Reading)
deriving DecidableEq

def serve [DecidableEq ρ] (K : Bridge ρ G) : Call ρ G → Program ρ (Answer ρ)
  | .submit grant p => do
    let x ← submit K grant p
    pure (.submitted x.1 x.2)
  | .stage grant key i => do
    let x ← stageAttachment K grant key i
    pure (.staged x.1 x.2)
  | .read grant key id includeBytes => do
    let x ← readAttachment K grant key id includeBytes
    pure (.reading x)

/-- What the store's functions put on a record that is there, store.ts:346-387, 574-624 and 719-738. -/
inductive Rewrite : (MessageRecord → MessageRecord) → Prop
  | parked (faults : List Fault) (reason : Option String) : Rewrite (Store.parked faults reason)
  | annotated (fields : AdapterFields → AdapterFields) : (∀ a, (fields a).inputKind = a.inputKind) →
      Rewrite (Store.annotated fields)
  | disposed (disposition : Disposition) : Rewrite (Store.disposed disposition)
  | released (release : Release) : Rewrite (Store.withRelease release)
  | completed (at_ : String) : Rewrite (Store.completed at_)
  | settled (status : Status) (chunkIds : Option (List String)) (at_ : Option String) :
      Rewrite (Store.settled status chunkIds at_)

/-- One write of the runtime beside the bridge. -/
inductive Touch (d : Custody ρ) : Custody ρ → Prop
  | rewrite (r : BrowserRecord ρ) (f : MessageRecord → MessageRecord) : d.records.find r.id = some r → Rewrite f →
      Touch d { d with records := d.records.put { r with toMessageRecord := f r.toMessageRecord } }
  | reply (r : BrowserRecord ρ) : d.records.find r.id = none → r.direction = .outbound →
      Touch d { d with records := d.records.put r }
  | thread (t : Thread) : t.files = d.filesOf t.unit → Touch d { d with threads := d.threads.put t }
  | aside (d' : Custody ρ) : d'.records = d.records → d'.threads = d.threads → Touch d d'

structure State (ρ G : Type) where
  disk : Custody ρ := {}
  /-- The calls that were begun. -/
  asked : List (Call ρ G) := []

/-- A call and how it ended, `none` where a death cut it short. -/
inductive Doing (ρ G : Type)
  | call (c : Call ρ G) (x : Option (Except (List Fault) (Answer ρ)))
  | beside

def ended : Except (List Fault) (Answer ρ) → Prog.Result (sig ρ) (Answer ρ)
  | .ok a => .ok a
  | .error e => .error e

def bridge [DecidableEq ρ] (K : Bridge ρ G) : LTS (State ρ G) (Doing ρ G) where
  init s := s.disk.records = Table.empty ∧ s.disk.threads = Table.empty ∧ s.asked = []
  step s
    | .call c (some x), s' => s'.asked = s.asked ++ [c] ∧ Prog.Runs (serve K c) s.disk (ended x) s'.disk
    | .call c none, s' => s'.asked = s.asked ++ [c] ∧ ∃ p, Prog.Steps (serve K c, s.disk) (p, s'.disk)
    | .beside, s' => s'.asked = s.asked ∧ Touch s.disk s'.disk

variable {K : Bridge ρ G} {c : Call ρ G} {d d₀ d' : Custody ρ} {s s₁ s₂ s' : State ρ G} {ls : List (Doing ρ G)}

/-! ## One step -/

theorem rewrite_kept {r : BrowserRecord ρ} {f : MessageRecord → MessageRecord} (h : Rewrite f) :
    Kept r { r with toMessageRecord := f r.toMessageRecord } := by
  cases h with
  | annotated fields hkind =>
    unfold Kept Store.annotated
    rw [← hkind]
  | completed at_ =>
    unfold Kept Store.completed
    dsimp only
    split <;> rfl
  | _ => rfl

/-- What the runtime leaves: the records and the files there were, and new records of its own only. -/
theorem touch_moves (h : Touch d d') : Grows d d' ∧
    (∀ r' ∈ d'.records.rows, r'.direction = .inbound → ∃ r ∈ d.records.rows, Kept r r') ∧
    ∀ c, d'.filesOf c = d.filesOf c := by
  -- Where the files stay, only the records are to be compared.
  have hfiles : ∀ {d' : Custody ρ}, (∀ c, d'.filesOf c = d.filesOf c) → ∀ c id f, (d.filesOf c).find id = some f →
      ∃ f', (d'.filesOf c).find id = some f' ∧ f.same f' ∧ ∀ m, f.boundMessageId = some m → f'.boundMessageId = some m :=
    fun h c id f hf => ⟨f, h c ▸ hf, rfl, fun _ hm => hm⟩
  cases h with
  | rewrite r f hr hf =>
    have hkept : Kept r { r with toMessageRecord := f r.toMessageRecord } := rewrite_kept hf
    refine ⟨⟨fun i q hq => ?_, hfiles fun _ => rfl⟩, fun q hq _ => ?_, fun _ => rfl⟩
    · by_cases hi : i = r.id
      · subst hi
        obtain rfl := Option.some.inj (hq.symm.trans hr)
        refine ⟨_, ?_, hkept⟩
        rw [← hkept.id]
        exact Table.find_put_self _ _
      · exact ⟨q, (Table.find_put_other _ _ (by rwa [hkept.id])).trans hq, .refl q⟩
    · rcases Table.mem_put.1 hq with rfl | ⟨hq, -⟩
      · exact ⟨r, Table.find_mem hr, hkept⟩
      · exact ⟨q, hq, .refl q⟩
  | reply r hnone hout =>
    refine ⟨⟨fun i q hq => ⟨q, ?_, .refl q⟩, hfiles fun _ => rfl⟩, fun q hq hdir => ?_, fun _ => rfl⟩
    · have hne : i ≠ r.id := by
        rintro rfl
        rw [hnone] at hq
        cases hq
      exact (Table.find_put_other _ _ hne).trans hq
    · rcases Table.mem_put.1 hq with rfl | ⟨hq, -⟩
      · rw [hout] at hdir
        cases hdir
      · exact ⟨q, hq, .refl q⟩
  | thread t ht =>
    have hsame : ∀ c, Custody.filesOf { d with threads := d.threads.put t } c = d.filesOf c := fun c => by
      rw [filesOf_put]
      split
      · rename_i hc
        rw [ht, hc]
      · rfl
    exact ⟨⟨fun i q hq => ⟨q, hq, .refl q⟩, hfiles hsame⟩, fun q hq _ => ⟨q, hq, .refl q⟩, hsame⟩
  | aside _ hrec hthreads =>
    have hsame : ∀ c, d'.filesOf c = d.filesOf c := fun c => by
      rw [Custody.filesOf, hthreads]
      rfl
    refine ⟨⟨fun i q hq => ⟨q, hrec ▸ hq, .refl q⟩, hfiles hsame⟩, fun q hq _ => ⟨q, hrec ▸ hq, .refl q⟩, hsame⟩

theorem touch_sound (h : Touch d d') (hs : Sound d) : Sound d' := by
  obtain ⟨hg, hrec, hfiles⟩ := touch_moves h
  refine hs.grows hg (fun r' hr' hdir => .inl (hrec r' hr' hdir)) fun c f hf m hm => .inl ⟨f, ?_, rfl, hm⟩
  rw [← hfiles]
  exact hf

theorem moving_heard (q : Question ρ) (a : q.Answer) (d : Custody ρ) (h : (sig ρ).valid q a d) :
    (moving K c d₀).heard q a d := h

variable [DecidableEq ρ]

theorem wp_serve : Prog.wp (moving K c d₀) (serve K c) (fun _ _ => True) (fun _ _ => True) d := by
  cases c with
  | submit grant p =>
    rw [serve, Prog.wp_bind]
    refine wp_submit rfl (fun _ _ => trivial) (fun prior _ _ => ?_) fun _ _ => ?_
    · split
      · exact ⟨fun _ => (Prog.wp_pure _).2 trivial, fun _ _ _ => trivial⟩
      · trivial
    · exact ⟨fun _ _ _ _ _ => (Prog.wp_pure _).2 trivial, fun _ _ => trivial⟩
  | stage grant key i =>
    rw [serve, Prog.wp_bind]
    exact wp_stageAttachment rfl (fun _ _ => (Prog.wp_pure _).2 trivial) fun _ _ => trivial
  | read grant key id includeBytes =>
    rw [serve, Prog.wp_bind]
    exact wp_readAttachment (fun _ _ _ _ _ _ _ => (Prog.wp_pure _).2 trivial) fun _ _ => trivial

/-- What a call leaves, wherever it is cut short. -/
theorem serve_moves {p : Program ρ (Answer ρ)} (h : Prog.Steps (serve K c, d) (p, d')) (hs : Sound d) :
    Sound d' ∧ Grows d d' ∧ Comes K c d d' :=
  (Prog.wp_steps (P := moving K c d) moving_heard h ⟨hs, .refl d, .refl K c d⟩ wp_serve).1

/-! ## Every run -/

/-- The custody is sound, and what is in it is of the calls that were begun. -/
structure Inv (K : Bridge ρ G) (s : State ρ G) : Prop where
  sound : Sound s.disk
  records : ∀ r ∈ s.disk.records.rows, r.direction = .inbound → ∃ c ∈ s.asked, SubmittedBy K c r
  files : ∀ conversation, ∀ f ∈ (s.disk.filesOf conversation).rows, ∃ c ∈ s.asked, StagedBy K c conversation f

theorem Inv.call (h : Inv K s) {p : Program ρ (Answer ρ)} (hst : Prog.Steps (serve K c, s.disk) (p, s'.disk))
    (hasked : s'.asked = s.asked ++ [c]) : Inv K s' := by
  obtain ⟨hs, -, hcomes⟩ := serve_moves hst h.sound
  refine ⟨hs, fun r hr hdir => ?_, fun conversation f hf => ?_⟩
  · rw [hasked]
    rcases hcomes.records r hr hdir with ⟨r₀, hr₀, hk⟩ | hby
    · obtain ⟨c₀, hc₀, hby⟩ := h.records r₀ hr₀ (hk.direction ▸ hdir)
      exact ⟨c₀, List.mem_append_left _ hc₀, hby.kept hk⟩
    · exact ⟨c, by simp, hby⟩
  · rw [hasked]
    rcases hcomes.files conversation f hf with ⟨f₀, hf₀, hsame⟩ | hby
    · obtain ⟨c₀, hc₀, hby⟩ := h.files conversation f₀ hf₀
      exact ⟨c₀, List.mem_append_left _ hc₀, hby.same hsame⟩
    · exact ⟨c, by simp, hby⟩

omit [DecidableEq ρ] in
theorem Inv.touch (h : Inv K s) (ht : Touch s.disk s'.disk) (hasked : s'.asked = s.asked) : Inv K s' := by
  obtain ⟨-, hrec, hfiles⟩ := touch_moves ht
  refine ⟨touch_sound ht h.sound, fun r hr hdir => ?_, fun conversation f hf => ?_⟩
  · obtain ⟨r₀, hr₀, hk⟩ := hrec r hr hdir
    obtain ⟨c₀, hc₀, hby⟩ := h.records r₀ hr₀ (hk.direction ▸ hdir)
    exact ⟨c₀, hasked ▸ hc₀, hby.kept hk⟩
  · rw [hfiles] at hf
    rw [hasked]
    exact h.files conversation f hf

theorem inv_inductive : (bridge K).Inductive (Inv K) where
  init s h := by
    obtain ⟨hr, ht, -⟩ := h
    have hfiles : ∀ conversation, s.disk.filesOf conversation = Table.empty := fun conversation => by
      rw [Custody.filesOf, ht]
      rfl
    have hnone : ∀ conversation, ∀ f, f ∉ (s.disk.filesOf conversation).rows := fun conversation f hf => by
      rw [hfiles] at hf
      cases hf
    have hrec : ∀ r, r ∉ s.disk.records.rows := fun r hr' => by
      rw [hr] at hr'
      cases hr'
    exact ⟨⟨fun r hr' => absurd hr' (hrec r), fun c f hf => absurd hf (hnone c f)⟩, fun r hr' => absurd hr' (hrec r),
      fun c f hf => absurd hf (hnone c f)⟩
  step s l s' h hst := by
    cases l with
    | call c x =>
      cases x with
      | none =>
        obtain ⟨hasked, p, hst⟩ := hst
        exact h.call hst hasked
      | some x => exact h.call hst.2 hst.1
    | beside => exact h.touch hst.2 hst.1

theorem step_grows {l : Doing ρ G} (h : (bridge K).step s l s') (hs : Sound s.disk) : Grows s.disk s'.disk := by
  cases l with
  | call c x =>
    cases x with
    | none =>
      obtain ⟨-, p, hst⟩ := h
      exact (serve_moves hst hs).2.1
    | some x => exact (serve_moves h.2 hs).2.1
  | beside => exact (touch_moves h.2).1

theorem run_grows (h : (bridge K).Run s ls s') (hs : Inv K s) : Grows s.disk s'.disk := by
  induction h with
  | nil => exact .refl _
  | cons hst _ ih => exact (step_grows hst hs.sound).trans (ih (inv_inductive.step _ _ _ hs hst))

/-! ## Runs that are computed -/

instance (q : Question ρ) (a : q.Answer) (d : Custody ρ) : Decidable ((sig ρ).valid q a d) :=
  match q, a with
  | .listing, (l : List (BrowserRecord ρ)) => inferInstanceAs (Decidable (l.Perm d.records.rows))
  | .evidence _ _, _ => inferInstanceAs (Decidable True)

/-- The directory is listed as it was written, and the references are right. -/
def inOrder (_ : Nat) (d : Custody ρ) : (q : Question ρ) → q.Answer
  | .listing => d.records.rows
  | .evidence _ _ => []

def exec (K : Bridge ρ G) (s : State ρ G) (c : Call ρ G) : Option (Except (List Fault) (Answer ρ) × State ρ G) :=
  match Prog.finishWith inOrder 0 (serve K c) s.disk with
  | some (.ok a, d) => some (.ok a, ⟨d, s.asked ++ [c]⟩)
  | some (.error e, d) => some (.error e, ⟨d, s.asked ++ [c]⟩)
  | none => none

theorem exec_step {x : Except (List Fault) (Answer ρ)} (h : exec K s c = some (x, s')) :
    (bridge K).step s (.call c (some x)) s' := by
  unfold exec at h
  split at h
  · rename_i hf
    cases h
    exact ⟨rfl, Prog.finishWith_runs _ hf⟩
  · rename_i hf
    cases h
    exact ⟨rfl, Prog.finishWith_runs _ hf⟩
  · cases h

/-- A desk that lets everyone in, and whose digests are all the same. -/
def desk : Bridge Unit String where
  js := { parse := fun _ => some 0, iso := fun _ => "", localeCompare := fun a b => compareOfLessAndEq a b, sha256 := fun s => s,
          stringify := fun s => s }
  digest _ := String.ofList (List.replicate 64 'a')
  attachments i := i.messageId
  rawFile i := i.messageId
  packetText _ := "packet"
  agent := "agent"
  account := "desk"
  authorize _ _ _ := true
  actorOf grant := some grant

def photo : StageInput where
  actor := ⟨"ann", "Ann"⟩
  uploadId := "u1"
  filename := "photo.png"
  mime := "image/png"
  bytes := [1, 2]
  maxBytes := 10

def question : BrowserPacket Unit where
  account := "desk"
  ticketKey := "OPS-1"
  submissionId := "s1"
  consultant := ⟨"ann", "Ann"⟩
  inputKind := some "message"
  attachmentIds := some [attachmentIdOf desk "desk:ticket:OPS-1" "u1"]
  body := "what is this"
  acceptedAt := "2026-01-01T00:00:00Z"
  position := "00000000000000000001"

def staging : Call Unit String := .stage "ann" "OPS-1" photo

def asking : Call Unit String := .submit "ann" question

def looking : Call Unit String := .read "bob" "OPS-1" (attachmentIdOf desk "desk:ticket:OPS-1" "u1") true

/-- The record of a new submission. -/
def newly : Except (List Fault) (Answer ρ) → Option (BrowserRecord ρ)
  | .ok (.submitted r false) => some r
  | _ => none

def given : Except (List Fault) (Answer ρ) → Option (Reading × List Nat)
  | .ok (.reading x) => x.bytes.map fun bytes => (x, bytes)
  | _ => none

/-- Ann stages a photo and submits it; it is submitted again, and Bob reads the photo. -/
def photoRun : Bool :=
  (exec desk {} staging).any fun x => (exec desk x.2 asking).any fun y => (newly y.1).any fun r =>
    decide (r ∈ y.2.disk.records.rows) && decide (r.direction = .inbound) && (exec desk y.2 asking).isSome &&
      (exec desk y.2 looking).any fun z => (given z.1).isSome

omit [DecidableEq ρ] in
theorem newly_some {x : Except (List Fault) (Answer ρ)} {r : BrowserRecord ρ} (h : newly x = some r) :
    x = .ok (.submitted r false) := by
  unfold newly at h
  split at h
  · cases h
    rfl
  · cases h

omit [DecidableEq ρ] in
theorem given_some {x : Except (List Fault) (Answer ρ)} {y : Reading × List Nat} (h : given x = some y) :
    x = .ok (.reading y.1) ∧ y.1.bytes = some y.2 := by
  unfold given at h
  split at h
  · obtain ⟨bytes, hb, rfl⟩ := Option.map_eq_some_iff.1 h
    exact ⟨rfl, hb⟩
  · cases h

theorem photo_submitted : ∃ m r s₁ s₂, exec desk {} staging = some (m, s₁) ∧
    exec desk s₁ asking = some (.ok (.submitted r false), s₂) ∧ r ∈ s₂.disk.records.rows ∧ r.direction = .inbound ∧
    (∃ x s₃, exec desk s₂ asking = some (x, s₃)) ∧
    ∃ x bytes s₃, exec desk s₂ looking = some (.ok (.reading x), s₃) ∧ x.bytes = some bytes := by
  have h : photoRun = true := by decide +kernel
  obtain ⟨⟨m, s₁⟩, hx, h⟩ := (Option.any_eq_true _ _).1 h
  obtain ⟨⟨y, s₂⟩, hy, h⟩ := (Option.any_eq_true _ _).1 h
  obtain ⟨r, hr, h⟩ := (Option.any_eq_true _ _).1 h
  simp only [Bool.and_eq_true, decide_eq_true_eq] at h
  obtain ⟨⟨⟨hmem, hdir⟩, hagain⟩, hlook⟩ := h
  obtain ⟨⟨x, s₃⟩, hagain⟩ := Option.isSome_iff_exists.1 hagain
  obtain ⟨⟨z, s₄⟩, hz, hgiven⟩ := (Option.any_eq_true _ _).1 hlook
  obtain ⟨w, hw⟩ := Option.isSome_iff_exists.1 hgiven
  obtain rfl := newly_some hr
  obtain ⟨rfl, hbytes⟩ := given_some hw
  exact ⟨m, r, s₁, s₂, hx, hy, hmem, hdir, ⟨x, s₃, hagain⟩, _, _, s₄, hz, hbytes⟩

theorem desk_reachable : (bridge desk).Reachable {} := ⟨{}, [], ⟨rfl, rfl, rfl⟩, .nil _⟩

theorem question_admitted : Admitted desk "ann" question :=
  ⟨by decide +kernel, by decide +kernel, rfl, rfl, by decide +kernel⟩

/-! ## A submission again -/

variable {grant grant' : G} {p p' : BrowserPacket ρ} {r r' : BrowserRecord ρ} {dup : Bool}

/-- What a submission says, and who says it. -/
structure SameContent (p p' : BrowserPacket ρ) : Prop where
  body : p.body = p'.body
  consultant : p.consultant = p'.consultant
  requestKind : p.requestKind = p'.requestKind
  inputKind : p.inputKind = p'.inputKind
  files : p.files = p'.files
  references : p.references.getD [] = p'.references.getD []

/-- The record says what the packet says. -/
def Says (K : Bridge ρ G) (r : BrowserRecord ρ) (p : BrowserPacket ρ) : Prop :=
  sameBrowserSubmission r (record K.agent K.account p) p = true

theorem says_iff : Says K r p ↔ r.body = p.body ∧ r.senderId = p.consultant.id ∧
    r.senderName = some p.consultant.name ∧ r.requestKind = p.requestKind ∧
    r.adapterFields.inputKind = p.inputKind ∧ r.attachmentIds = p.files ∧ r.references = p.references.getD [] := by
  unfold Says sameBrowserSubmission
  simp only [Bool.and_eq_true, decide_eq_true_eq, and_assoc]
  exact Iff.rfl

theorem says_accepts (h : Accepts K p r) : Says K r p := by
  obtain ⟨as, raw, hk⟩ := h
  rw [says_iff, hk]
  exact ⟨rfl, rfl, rfl, rfl, rfl, rfl, rfl⟩

theorem says_kept (hk : Kept r r') : Says K r' p ↔ Says K r p := by
  rw [says_iff, says_iff, hk]

theorem says_again (h : Says K r p) : Says K r p' ↔ SameContent p p' := by
  obtain ⟨hbody, hid, hname, hkind, hinput, hfiles, hrefs⟩ := says_iff.1 h
  rw [says_iff, hbody, hid, hname, hkind, hinput, hfiles, hrefs]
  constructor
  · rintro ⟨h₁, h₂, h₃, h₄, h₅, h₆, h₇⟩
    refine ⟨h₁, ?_, h₄, h₅, h₆, h₇⟩
    rw [show p.consultant = ⟨p.consultant.id, p.consultant.name⟩ from rfl, h₂, Option.some.inj h₃]
  · intro hc
    exact ⟨hc.body, by rw [hc.consultant], by rw [hc.consultant], hc.requestKind, hc.inputKind, hc.files,
      hc.references⟩

theorem componentFaults_subject {J : Js} {subject raw : String} (subject' : String)
    (h : componentFaults J subject raw = []) : componentFaults J subject' raw = [] := by
  unfold componentFaults at h ⊢
  by_cases hraw : raw = ""
  · rw [if_pos hraw] at h
    cases h
  · rw [if_neg hraw] at h ⊢
    cases hc : raw.toList.find? isControl with
    | some c => simp only [hc, List.append_eq_nil_iff, List.cons_ne_nil, and_false, false_and] at h
    | none =>
      simp only [hc, List.append_eq_nil_iff, ite_eq_right_iff, List.cons_ne_nil, imp_false] at h ⊢
      exact h

/-- What an answered submission leaves. -/
structure Answered (K : Bridge ρ G) (p : BrowserPacket ρ) (r : BrowserRecord ρ) (d : Custody ρ) : Prop where
  found : d.records.find (K.place p) = some r
  content : Says K r p
  inbound : p.files = [] ∨ r.direction = .inbound
  bound : ∀ id ∈ p.files, ∃ f m, (d.filesOf (K.conversation p)).find id = some f ∧ f.boundMessageId = some m ∧
    f.actor.id = p.consultant.id

theorem answered_bound {m : String} (hfound : d.records.find (K.place p) = some r) (hsaid : Says K r p)
    (h : p.files = [] ∨ Bindable K d (K.conversation p) p.consultant.id p.files m) (hm : m = K.message p) :
    Answered K p r (d.bound (K.conversation p) p.files m) := by
  subst hm
  refine ⟨?_, hsaid, ?_, fun id hid => ?_⟩
  · rw [(bound_onlyThreads d _ _ _).records]
    exact hfound
  · refine h.imp_right fun hb => ?_
    obtain ⟨q, hq, hdir, -⟩ := capturedFileReferences_some hb.captured
    obtain rfl := Option.some.inj (hq.symm.trans hfound)
    exact hdir
  · rcases h with hnil | hb
    · rw [hnil] at hid
      cases hid
    · obtain ⟨f, hf, hactor⟩ := hb.actor id hid
      rw [find_bound, hf]
      refine ⟨f.boundTo (K.message p), f.boundMessageId.getD (K.message p), ?_, ?_, hactor⟩
      · rw [Option.map_some, if_pos ⟨rfl, hid⟩]
      · unfold Staged.boundTo
        cases f.boundMessageId <;> rfl

theorem submit_answered (hs : Sound d)
    (h : Prog.Runs (serve K (.submit grant p)) d (ended (.ok (.submitted r dup))) d') :
    Admitted K grant p ∧ Answered K p r d' := by
  have hw : Prog.wp (moving K (.submit grant p) d) (serve K (.submit grant p))
      (fun a d' => ∀ r dup, a = .submitted r dup → Admitted K grant p ∧ Answered K p r d') (fun _ _ => True) d := by
    rw [serve, Prog.wp_bind]
    refine wp_submit rfl (fun _ _ => trivial) (fun prior hadm hfound => ?_) fun hadm hnone => ⟨?_, fun _ _ => trivial⟩
    · split
      · rename_i hsame
        refine ⟨fun hb => (Prog.wp_pure _).2 fun r dup ha => ?_, fun _ _ _ => trivial⟩
        cases ha
        exact ⟨hadm, answered_bound hfound hsame hb (congrArg Identity.messageId (Table.find_key hfound))⟩
      · trivial
    · intro r s₁ hacc hfound hb
      refine (Prog.wp_pure _).2 fun r' dup ha => ?_
      cases ha
      exact ⟨hadm, answered_bound hfound (says_accepts hacc) hb rfl⟩
  exact (Prog.wp_runs (P := moving K (.submit grant p) d) moving_heard h ⟨hs, .refl d, .refl K _ d⟩ hw).2 r dup rfl

/-- The files of a submission that is there can be bound. -/
theorem bindable_of_found (hs : Sound d) (hadm : Admitted K grant p) (hfound : d.records.find (K.place p) = some r)
    (hsaid : Says K r p) (hdir : r.direction = .inbound) :
    Bindable K d (K.conversation p) p.consultant.id p.files r.messageId := by
  have hsub := hs.submitted r (Table.find_mem hfound) hdir
  have hid : r.id = K.place p := Table.find_key hfound
  have hmessage : r.messageId = K.message p := congrArg Identity.messageId hid
  have hconv : r.conversationId = K.conversation p := congrArg Identity.conversationId hid
  obtain ⟨-, hsender, -, -, -, hfiles, -⟩ := says_iff.1 hsaid
  refine ⟨(browserPacket_ok hadm.packet).2.2, ?_, fun id hin => ?_, ?_, ?_⟩
  · exact componentFaults_subject _ (List.append_eq_nil_iff.1 hadm.path).1
  · obtain ⟨a, ha, haid⟩ := List.any_eq_true.1 (hsub.named id (hfiles ▸ hin))
    obtain ⟨f, hf, rfl, hactor, -⟩ := hsub.attached a ha
    have hfid : f.attachmentId = id := Option.some.inj (of_decide_eq_true haid)
    refine ⟨f, ?_, hactor.trans hsender⟩
    rw [← hconv, ← hfid]
    exact Table.mem_find hf
  · rw [hmessage]
    exact hadm.path
  · rw [hmessage]
    rw [show (⟨K.conversation p, K.message p, 0⟩ : Identity) = K.place p from rfl, hfound]
    simp only [capturedFileReferences, Option.any_some, Bool.and_eq_true, decide_eq_true_eq, List.all_eq_true]
    exact ⟨⟨hdir, hsender⟩, fun id hin => hsub.named id (hfiles ▸ hin)⟩

theorem submit_again (hs : Sound d) (hadm : Admitted K grant p) (hfound : d.records.find (K.place p) = some r)
    (hdir : Says K r p → p.files = [] ∨ r.direction = .inbound) {x : Except (List Fault) (Answer ρ)}
    (h : Prog.Runs (serve K (.submit grant p)) d (ended x) d') :
    (Says K r p → x = .ok (.submitted r true) ∧ OnlyThreads d d') ∧
      (¬ Says K r p → x = .error [submissionConflict p.submissionId] ∧ d' = d) := by
  have hw : Prog.wp (moving K (.submit grant p) d) (serve K (.submit grant p))
      (fun a d' => Says K r p ∧ a = .submitted r true ∧ OnlyThreads d d')
      (fun e d' => ¬ Says K r p ∧ e = [submissionConflict p.submissionId] ∧ d' = d) d := by
    rw [serve, Prog.wp_bind]
    refine wp_submit rfl (fun hnot => absurd hadm hnot) (fun prior _ hprior => ?_) fun _ hnone => ?_
    · obtain rfl := Option.some.inj (hprior.symm.trans hfound)
      split
      · rename_i hsaid
        refine ⟨fun _ => (Prog.wp_pure _).2 ⟨hsaid, rfl, bound_onlyThreads d _ _ _⟩, fun hne hnot => ?_⟩
        exact absurd (bindable_of_found hs hadm hfound hsaid ((hdir hsaid).resolve_left hne)) hnot
      · rename_i hdiff
        exact ⟨hdiff, rfl, rfl⟩
    · rw [hnone] at hfound
      cases hfound
  have hend := (Prog.wp_runs (P := moving K (.submit grant p) d) moving_heard h ⟨hs, .refl d, .refl K _ d⟩ hw).2
  cases x with
  | ok a =>
    obtain ⟨hsaid, rfl, honly⟩ := hend
    exact ⟨fun _ => ⟨rfl, honly⟩, fun hnot => absurd hsaid hnot⟩
  | error e =>
    obtain ⟨hnot, rfl, rfl⟩ := hend
    exact ⟨fun hsaid => absurd hsaid hnot, fun _ => ⟨rfl, rfl⟩⟩

/-- Once a submission was answered, with anything between, the same content is answered with the record there is, and
other content is refused; a record is written by neither. -/
theorem submission_once {x : Except (List Fault) (Answer ρ)} (h : (bridge K).Reachable s)
    (hfirst : (bridge K).step s (.call (.submit grant p) (some (.ok (.submitted r dup)))) s₁)
    (hrun : (bridge K).Run s₁ ls s₂) (hkey : p'.ticketKey = p.ticketKey) (hid : p'.submissionId = p.submissionId)
    (hadm : Admitted K grant' p') (hagain : (bridge K).step s₂ (.call (.submit grant' p') (some x)) s') :
    ∃ r', s₂.disk.records.find (K.place p) = some r' ∧ Kept r r' ∧
      (SameContent p p' → x = .ok (.submitted r' true) ∧ OnlyThreads s₂.disk s'.disk) ∧
      (¬ SameContent p p' → x = .error [submissionConflict p'.submissionId] ∧ s'.disk = s₂.disk) := by
  have hinv := inv_inductive.reachable s h
  have hinv₁ := inv_inductive.step _ _ _ hinv hfirst
  have hinv₂ := inv_inductive.run hrun hinv₁
  obtain ⟨-, hans⟩ := submit_answered hinv.sound hfirst.2
  obtain ⟨r', hr', hk⟩ := (run_grows hrun hinv₁).records _ r hans.found
  have hplace : K.place p' = K.place p := by
    unfold Bridge.place Bridge.conversation Bridge.message
    rw [hkey, hid]
  have hsaid' : Says K r' p' ↔ SameContent p p' := says_again ((says_kept hk).2 hans.content)
  rw [← hplace] at hr'
  have hdir : Says K r' p' → p'.files = [] ∨ r'.direction = .inbound := fun hsaid =>
    hans.inbound.imp (fun hnil => (hsaid'.1 hsaid).files ▸ hnil) fun hdir => hk.direction.trans hdir
  obtain ⟨hyes, hno⟩ := submit_again hinv₂.sound hadm hr' hdir hagain.2
  rw [hsaid'] at hyes hno
  exact ⟨r', hplace ▸ hr', hk, hyes, hno⟩

theorem submission_once_photo : ∃ s s₁ s' r r' x,
    (bridge desk).step s (.call asking (some (.ok (.submitted r false)))) s₁ ∧
    (bridge desk).step s₁ (.call asking (some x)) s' ∧
    s₁.disk.records.find (desk.place question) = some r' ∧ Kept r r' ∧
      (SameContent question question → x = .ok (.submitted r' true) ∧ OnlyThreads s₁.disk s'.disk) ∧
      (¬ SameContent question question →
        x = .error [submissionConflict question.submissionId] ∧ s'.disk = s₁.disk) := by
  obtain ⟨m, r, s₁, s₂, hstage, hask, -, -, ⟨x, s₃, hagain⟩, -⟩ := photo_submitted
  obtain ⟨r', h⟩ := submission_once (desk_reachable.step (exec_step hstage)) (exec_step hask) (.nil _) rfl rfl
    question_admitted (exec_step hagain)
  exact ⟨s₁, s₂, s₃, r, r', x, exec_step hask, exec_step hagain, h⟩

/-- Two submissions that are answered with records of one identity are the same on the same ticket. -/
theorem answered_apart {t t₁ : State ρ G} {dup' : Bool} (h : (bridge K).Reachable s) (h' : (bridge K).Reachable t)
    (hst : (bridge K).step s (.call (.submit grant p) (some (.ok (.submitted r dup)))) s₁)
    (hst' : (bridge K).step t (.call (.submit grant' p') (some (.ok (.submitted r' dup')))) t₁) (hid : r.id = r'.id) :
    p.ticketKey = p'.ticketKey ∧ p.submissionId = p'.submissionId := by
  obtain ⟨hadm, hans⟩ := submit_answered (inv_inductive.reachable s h).sound hst.2
  obtain ⟨hadm', hans'⟩ := submit_answered (inv_inductive.reachable t h').sound hst'.2
  have hplace : K.place p = K.place p' :=
    (Table.find_key hans.found).symm.trans (hid.trans (Table.find_key hans'.found))
  exact messageId_inj (browserPacket_ok hadm.packet).2.1 (browserPacket_ok hadm'.packet).2.1
    (congrArg Identity.messageId hplace)

/-! ## What a submission carries -/

/-- The upload of a file, as it was asked for. -/
structure Upload (K : Bridge ρ G) (asked : List (Call ρ G)) (conversation actorId : String) (a : Attachment)
    (i : StageInput) : Prop where
  asked : ∃ grant key, .stage grant key i ∈ asked ∧ K.authorize grant key .submit = true ∧
    conversation = conversationOf K.account key
  actor : i.actor.id = actorId
  sha256 : a.sha256 = K.digest i.bytes
  bytes : a.bytes = i.bytes.length
  mime : a.mime = i.mime
  filename : a.filename = some i.filename
  id : a.attachmentId = some (attachmentIdOf K conversation i.uploadId)

omit [DecidableEq ρ] in
theorem Inv.upload (h : Inv K s) {conversation : String} {f : Staged}
    (hf : f ∈ (s.disk.filesOf conversation).rows) :
    ∃ i, Upload K s.asked conversation f.actor.id f.attachment i := by
  obtain ⟨_, hc, grant, key, i, file, rfl, hconv, hauth, hsame⟩ := h.files conversation f hf
  refine ⟨i, ⟨grant, key, hc, hauth, hconv⟩, ?_, ?_, ?_, ?_, ?_, ?_⟩ <;> rw [hsame] <;> rfl

/-- What a captured submission carries is what it named, and each file was staged by its sender for its
conversation. -/
theorem attachments_staged (h : (bridge K).Reachable s) (hr : r ∈ s.disk.records.rows)
    (hdir : r.direction = .inbound) :
    (∃ grant p, .submit grant p ∈ s.asked ∧ K.authorize grant p.ticketKey .submit = true ∧ Accepts K p r ∧
      ∀ id, id ∈ p.files ↔ r.carries id = true) ∧
    ∀ a ∈ r.attachments, ∃ i, Upload K s.asked r.conversationId r.senderId a i := by
  have hinv := inv_inductive.reachable s h
  have hsub := hinv.sound.submitted r hr hdir
  obtain ⟨_, hc, grant, p, rfl, -, hauth, -, hacc⟩ := hinv.records r hr hdir
  obtain ⟨-, -, -, -, -, hfiles, -⟩ := says_iff.1 (says_accepts hacc)
  refine ⟨⟨grant, p, hc, hauth, hacc, fun id => ⟨fun hid => hsub.named id (hfiles ▸ hid), fun hcar => ?_⟩⟩, fun a ha => ?_⟩
  · obtain ⟨a, ha, haid⟩ := List.any_eq_true.1 hcar
    obtain ⟨f, -, rfl, -, hid⟩ := hsub.attached a ha
    rw [← hfiles, ← show f.attachmentId = id from Option.some.inj (of_decide_eq_true haid)]
    exact hid
  · obtain ⟨f, hf, rfl, hactor, -⟩ := hsub.attached a ha
    rw [← hactor]
    exact hinv.upload hf

theorem attachments_staged_photo : ∃ s r, (bridge desk).Reachable s ∧ r ∈ s.disk.records.rows ∧
    (∃ grant p, .submit grant p ∈ s.asked ∧ desk.authorize grant p.ticketKey .submit = true ∧ Accepts desk p r ∧
      ∀ id, id ∈ p.files ↔ r.carries id = true) ∧
    ∀ a ∈ r.attachments, ∃ i, Upload desk s.asked r.conversationId r.senderId a i := by
  obtain ⟨m, r, s₁, s₂, hstage, hask, hmem, hdir, -⟩ := photo_submitted
  have hreach := (desk_reachable.step (exec_step hstage)).step (exec_step hask)
  exact ⟨s₂, r, hreach, hmem, attachments_staged hreach hmem hdir⟩

/-- The files of an answered submission are bound, each to a message of the sender that carries it, and stay bound to
that message. -/
theorem files_bound (h : (bridge K).Reachable s)
    (hanswer : (bridge K).step s (.call (.submit grant p) (some (.ok (.submitted r dup)))) s₁)
    (hrun : (bridge K).Run s₁ ls s₂) {id : String} (hid : id ∈ p.files) :
    ∃ f m, (s₁.disk.filesOf (K.conversation p)).find id = some f ∧ f.boundMessageId = some m ∧
      f.actor.id = p.consultant.id ∧ (s₂.disk.filesOf (K.conversation p)).find id = some f ∧
      Carrier s₂.disk (K.conversation p) f m := by
  have hinv := inv_inductive.reachable s h
  have hinv₁ := inv_inductive.step _ _ _ hinv hanswer
  have hinv₂ := inv_inductive.run hrun hinv₁
  obtain ⟨-, hans⟩ := submit_answered hinv.sound hanswer.2
  obtain ⟨f, m, hf, hm, hactor⟩ := hans.bound id hid
  obtain ⟨f', hf', hsame, hkeep⟩ := (run_grows hrun hinv₁).files _ id f hf
  have hm' := hkeep m hm
  obtain rfl : f' = f := by
    rw [hsame, hm', ← hm]
  exact ⟨f', m, hf, hm, hactor, hf', hinv₂.sound.bound _ f' (Table.find_mem hf') m hm'⟩

theorem files_bound_photo : ∃ s₁ s₂ r, (bridge desk).step s₁ (.call asking (some (.ok (.submitted r false)))) s₂ ∧
    ∃ f m, (s₂.disk.filesOf (desk.conversation question)).find (attachmentIdOf desk "desk:ticket:OPS-1" "u1") = some f ∧
      f.boundMessageId = some m ∧ f.actor.id = question.consultant.id ∧
      (s₂.disk.filesOf (desk.conversation question)).find (attachmentIdOf desk "desk:ticket:OPS-1" "u1") = some f ∧
      Carrier s₂.disk (desk.conversation question) f m := by
  obtain ⟨m, r, s₁, s₂, hstage, hask, -⟩ := photo_submitted
  exact ⟨s₁, s₂, r, exec_step hask,
    files_bound (desk_reachable.step (exec_step hstage)) (exec_step hask) (.nil _) (List.mem_singleton.2 rfl)⟩

/-! ## Who is given bytes -/

/-- Bytes that are given are those that were staged, to who staged them unless a captured submission of theirs
carries the file; or they are of an accepted output of the conversation. -/
theorem bytes_answered {key id : String} {includeBytes : Bool} {x : Reading} {bytes : List Nat}
    (h : (bridge K).Reachable s)
    (hread : (bridge K).step s (.call (.read grant key id includeBytes) (some (.ok (.reading x)))) s')
    (hx : x.bytes = some bytes) :
    (∃ f i, (s'.disk.filesOf (conversationOf K.account key)).find id = some f ∧
      Upload K s'.asked (conversationOf K.account key) f.actor.id f.attachment i ∧
      K.digest bytes = K.digest i.bytes ∧ bytes.length = i.bytes.length ∧
      (K.actorOf grant = some f.actor.id ∨
        ∃ m, f.boundMessageId = some m ∧ Carrier s'.disk (conversationOf K.account key) f m)) ∨
    ∃ r a, r ∈ s.disk.records.rows ∧ r.conversationId = conversationOf K.account key ∧
      acceptedBrowserOutput r = true ∧ a ∈ r.attachments ∧ a.attachmentId = some id ∧
      K.digest bytes = a.sha256 ∧ bytes.length = a.bytes := by
  have hinv := inv_inductive.reachable s h
  have hinv' := inv_inductive.step _ _ _ hinv hread
  have hw : Prog.wp (moving K (.read grant key id includeBytes) s.disk) (serve K (.read grant key id includeBytes))
      (fun answer d' => ∀ x, answer = .reading x → ∃ held, Found s.disk d' (conversationOf K.account key) id held ∧
        (∀ b, x.bytes = some b → Intact K held.attachment b) ∧
        (held.boundMessageId = none → ∀ actor, held.actor = some actor → K.actorOf grant = some actor.id))
      (fun _ _ => True) s.disk := by
    rw [serve, Prog.wp_bind]
    refine wp_readAttachment (fun held d' x hfound _ hb hown => (Prog.wp_pure _).2 fun x' hx' => ?_) fun _ _ => trivial
    cases hx'
    exact ⟨held, hfound, hb, hown⟩
  obtain ⟨held, hfound, hb, hown⟩ := (Prog.wp_runs (P := moving K (.read grant key id includeBytes) s.disk)
    moving_heard hread.2 ⟨hinv.sound, .refl _, .refl K _ _⟩ hw).2 x rfl
  obtain ⟨hlength, hdigest⟩ := hb bytes hx
  cases hfound with
  | staged f hf hheld _ _ =>
    subst hheld
    have hmem := Table.find_mem hf
    obtain ⟨i, hup⟩ := hinv'.upload hmem
    refine .inl ⟨f, i, hf, hup, hdigest.trans hup.sha256, hlength.trans hup.bytes, ?_⟩
    cases hm : f.boundMessageId with
    | none => exact .inl (hown hm f.actor rfl)
    | some m => exact .inr ⟨m, rfl, hinv'.sound.bound _ f hmem m hm⟩
  | output r a hr hc hout ha hid hheld _ =>
    subst hheld
    exact .inr ⟨r, a, hr, hc, hout, ha, hid, hdigest, hlength⟩

theorem bytes_answered_photo : ∃ s s' x bytes,
    (bridge desk).step s (.call looking (some (.ok (.reading x)))) s' ∧ x.bytes = some bytes ∧
    ((∃ f i, (s'.disk.filesOf "desk:ticket:OPS-1").find (attachmentIdOf desk "desk:ticket:OPS-1" "u1") = some f ∧
      Upload desk s'.asked "desk:ticket:OPS-1" f.actor.id f.attachment i ∧
      desk.digest bytes = desk.digest i.bytes ∧ bytes.length = i.bytes.length ∧
      (desk.actorOf "bob" = some f.actor.id ∨
        ∃ m, f.boundMessageId = some m ∧ Carrier s'.disk "desk:ticket:OPS-1" f m)) ∨
    ∃ r a, r ∈ s.disk.records.rows ∧ r.conversationId = "desk:ticket:OPS-1" ∧ acceptedBrowserOutput r = true ∧
      a ∈ r.attachments ∧ a.attachmentId = some (attachmentIdOf desk "desk:ticket:OPS-1" "u1") ∧
      desk.digest bytes = a.sha256 ∧ bytes.length = a.bytes) := by
  obtain ⟨m, r, s₁, s₂, hstage, hask, -, -, -, x, bytes, s₃, hlook, hbytes⟩ := photo_submitted
  have hreach := (desk_reachable.step (exec_step hstage)).step (exec_step hask)
  exact ⟨s₂, s₃, x, bytes, exec_step hlook, hbytes, bytes_answered hreach (exec_step hlook) hbytes⟩

end CarbonRuntime.Browser
