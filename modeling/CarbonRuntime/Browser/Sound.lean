import CarbonRuntime.Browser.Custody

/-!
# What the calls of a bridge keep

`Sound` is what the custody is: a captured submission carries files that its sender staged in its conversation, and a
file is bound to a message of its sender that carries it. `Grows` is what no write takes away, and `Comes` where what
is new comes from, of one call. `moving` is the protocol of a call, and each program of the bridge has one rule
against it.
-/

open CarbonRuntime.Core CarbonRuntime.Stream

namespace CarbonRuntime.Browser

variable {ρ G : Type} {d d₀ d' : Custody ρ} {c c' m : String} {f f' : Staged} {r r' : BrowserRecord ρ}

/-! ## Threads and their files -/

theorem withFiles_unit (d : Custody ρ) (c : String) (files : Table Staged.attachmentId) :
    (d.withFiles c files).unit = c := by
  unfold Custody.withFiles
  cases h : d.threads.find c with
  | none => rfl
  | some t =>
    have hunit : t.unit = c := Table.find_key h
    exact hunit

theorem filesOf_put (d : Custody ρ) (t : Thread) (c : String) :
    Custody.filesOf { d with threads := d.threads.put t } c = if c = t.unit then t.files else d.filesOf c := by
  unfold Custody.filesOf
  dsimp only
  rw [Table.find_put]
  split <;> rfl

theorem filesOf_withFiles (d : Custody ρ) (c c' : String) (files : Table Staged.attachmentId) :
    Custody.filesOf { d with threads := d.threads.put (d.withFiles c files) } c' =
      if c' = c then files else d.filesOf c' := by
  rw [filesOf_put, withFiles_unit]
  rfl

/-! ## Binding -/

def Staged.boundTo (f : Staged) (messageId : String) : Staged :=
  { f with boundMessageId := f.boundMessageId <|> some messageId }

theorem boundTo_boundTo (f : Staged) (m : String) : (f.boundTo m).boundTo m = f.boundTo m := by
  unfold Staged.boundTo
  cases f.boundMessageId <;> rfl

theorem find_bindOne (m id k : String) (files : Table Staged.attachmentId) : (bindOne m files id).find k =
    (files.find k).map fun f => if k = id then f.boundTo m else f := by
  unfold bindOne
  cases h : files.find id with
  | none =>
    by_cases hk : k = id
    · rw [hk, h]
      rfl
    · simp [hk]
  | some f =>
    have hid : f.attachmentId = id := Table.find_key h
    have hput := Table.find_put files (f.boundTo m) k
    rw [show (f.boundTo m).attachmentId = id from hid] at hput
    refine hput.trans ?_
    by_cases hk : k = id
    · rw [if_pos hk, hk, h]
      simp
    · simp [hk]

theorem find_foldl_bindOne (m k : String) (ids : List String) (files : Table Staged.attachmentId) :
    (ids.foldl (bindOne m) files).find k =
      (files.find k).map fun f => if k ∈ ids then f.boundTo m else f := by
  induction ids generalizing files with
  | nil => simp
  | cons id ids ih =>
    rw [List.foldl_cons, ih, find_bindOne, Option.map_map]
    refine congrArg (fun g => (files.find k).map g) (funext fun f => ?_)
    by_cases hk : k = id
    · by_cases hm : k ∈ ids
      · simp [hk, hk ▸ hm, boundTo_boundTo]
      · simp [hk, hk ▸ hm]
    · by_cases hm : k ∈ ids <;> simp [hk, hm]

/-- The custody after the files of a message are bound to it. -/
def Custody.bindTo (d : Custody ρ) (c : String) (ids : List String) (m : String) : Custody ρ :=
  { d with threads := d.threads.put (d.withFiles c (ids.foldl (bindOne m) (d.filesOf c))) }

theorem find_bindTo (d : Custody ρ) (c : String) (ids : List String) (m c' k : String) :
    ((d.bindTo c ids m).filesOf c').find k =
      ((d.filesOf c').find k).map fun f => if c' = c ∧ k ∈ ids then f.boundTo m else f := by
  rw [Custody.bindTo, filesOf_withFiles]
  split
  · rename_i hc
    subst hc
    rw [find_foldl_bindOne]
    simp
  · rename_i hc
    simp [hc]

/-! ## What is kept -/

/-- What no later write changes of a record: all that was submitted. -/
def Kept (old new : BrowserRecord ρ) : Prop :=
  new = { old with
    disposition := new.disposition, release := new.release, delivery := new.delivery
    adapterFields := { new.adapterFields with inputKind := old.adapterFields.inputKind } }

theorem Kept.refl (r : BrowserRecord ρ) : Kept r r := rfl

theorem Kept.trans {r₁ r₂ r₃ : BrowserRecord ρ} (h : Kept r₁ r₂) (h' : Kept r₂ r₃) : Kept r₁ r₃ := by
  unfold Kept at h h' ⊢
  rw [h', h]

section Kept
variable (h : Kept r r')
include h

theorem Kept.id : r'.id = r.id := by rw [h]; rfl

theorem Kept.direction : r'.direction = r.direction := by rw [h]

theorem Kept.source : r'.source = r.source := by rw [h]

theorem Kept.senderId : r'.senderId = r.senderId := by rw [h]

theorem Kept.attachments : r'.attachments = r.attachments := by rw [h]

theorem Kept.attachmentIds : r'.attachmentIds = r.attachmentIds := by rw [h]

theorem Kept.conversationId : r'.conversationId = r.conversationId := by rw [h]

theorem Kept.revision : r'.revision = r.revision := by rw [h]

theorem Kept.carries (id : String) : r'.carries id = r.carries id := by
  unfold BrowserRecord.carries
  rw [h.attachments]

end Kept

/-- A file but for the message it is bound to. -/
def Staged.same (f f' : Staged) : Prop := f' = { f with boundMessageId := f'.boundMessageId }

/-- The records stay with what was submitted, the files stay, and a file bound stays bound to the same message. -/
structure Grows (d d' : Custody ρ) : Prop where
  records : ∀ i r, d.records.find i = some r → ∃ r', d'.records.find i = some r' ∧ Kept r r'
  files : ∀ c id f, (d.filesOf c).find id = some f →
    ∃ f', (d'.filesOf c).find id = some f' ∧ f.same f' ∧ ∀ m, f.boundMessageId = some m → f'.boundMessageId = some m

theorem Staged.same.trans {f₁ f₂ f₃ : Staged} (h : f₁.same f₂) (h' : f₂.same f₃) : f₁.same f₃ := by
  unfold Staged.same at h h' ⊢
  rw [h', h]

theorem Grows.refl (d : Custody ρ) : Grows d d :=
  ⟨fun _ r h => ⟨r, h, .refl r⟩, fun _ _ f h => ⟨f, h, rfl, fun _ hm => hm⟩⟩

theorem Grows.trans {d₁ d₂ d₃ : Custody ρ} (h : Grows d₁ d₂) (h' : Grows d₂ d₃) : Grows d₁ d₃ where
  records i r hr := by
    obtain ⟨r₂, hr₂, hk⟩ := h.records i r hr
    obtain ⟨r₃, hr₃, hk'⟩ := h'.records i r₂ hr₂
    exact ⟨r₃, hr₃, hk.trans hk'⟩
  files c id f hf := by
    obtain ⟨f₂, hf₂, hs, hb⟩ := h.files c id f hf
    obtain ⟨f₃, hf₃, hs', hb'⟩ := h'.files c id f₂ hf₂
    exact ⟨f₃, hf₃, hs.trans hs', fun m hm => hb' m (hb m hm)⟩

/-! ## The invariant -/

/-- The record is what a sender submitted, with these files of the conversation. -/
structure Submission (d : Custody ρ) (r : BrowserRecord ρ) : Prop where
  revision : r.revision = 0
  source : r.source = "browser"
  attached : ∀ a ∈ r.attachments, ∃ f ∈ (d.filesOf r.conversationId).rows,
    a = f.attachment ∧ f.actor.id = r.senderId ∧ f.attachmentId ∈ r.attachmentIds
  named : ∀ id ∈ r.attachmentIds, r.carries id = true

/-- A message of the file's sender that carries it. -/
def Carrier (d : Custody ρ) (c : String) (f : Staged) (m : String) : Prop :=
  ∃ r, d.records.find ⟨c, m, 0⟩ = some r ∧ r.direction = .inbound ∧ r.senderId = f.actor.id ∧
    r.carries f.attachmentId = true

structure Sound (d : Custody ρ) : Prop where
  submitted : ∀ r ∈ d.records.rows, r.direction = .inbound → Submission d r
  bound : ∀ c, ∀ f ∈ (d.filesOf c).rows, ∀ m, f.boundMessageId = some m → Carrier d c f m

theorem Submission.grows (h : Submission d r) (hg : Grows d d') (hk : Kept r r') : Submission d' r' where
  revision := hk.revision.trans h.revision
  source := hk.source.trans h.source
  attached a ha := by
    rw [hk.attachments] at ha
    obtain ⟨f, hf, rfl, hactor, hid⟩ := h.attached a ha
    obtain ⟨f', hf', hs, -⟩ := hg.files _ _ f (Table.mem_find hf)
    rw [hk.conversationId, hk.senderId, hk.attachmentIds]
    refine ⟨f', Table.find_mem hf', ?_, ?_, ?_⟩ <;> rw [hs]
    · rfl
    · exact hactor
    · exact hid
  named id hid := by
    rw [hk.attachmentIds] at hid
    rw [hk.carries]
    exact h.named id hid

theorem Submission.congr (h : Submission d r) (hfiles : ∀ c, d'.filesOf c = d.filesOf c) : Submission d' r where
  revision := h.revision
  source := h.source
  attached a ha := by
    rw [hfiles]
    exact h.attached a ha
  named := h.named

theorem Carrier.grows (h : Carrier d c f m) (hg : Grows d d') : Carrier d' c f m := by
  obtain ⟨r, hr, hdir, hsender, hc⟩ := h
  obtain ⟨r', hr', hk⟩ := hg.records _ r hr
  exact ⟨r', hr', hk.direction.trans hdir, hk.senderId.trans hsender, (hk.carries _).trans hc⟩

theorem Carrier.same (h : Carrier d c f m) (hs : f.same f') : Carrier d c f' m := by
  rw [hs]
  exact h

/-- Where the records only grow and the files too, and what is new is right, the custody stays sound. -/
theorem Sound.grows (h : Sound d) (hg : Grows d d')
    (hrec : ∀ r' ∈ d'.records.rows, r'.direction = .inbound →
      (∃ r ∈ d.records.rows, Kept r r') ∨ Submission d' r')
    (hfile : ∀ c, ∀ f' ∈ (d'.filesOf c).rows, ∀ m, f'.boundMessageId = some m →
      (∃ f ∈ (d.filesOf c).rows, f.same f' ∧ f.boundMessageId = some m) ∨ Carrier d' c f' m) : Sound d' where
  submitted r' hr' hdir := by
    rcases hrec r' hr' hdir with ⟨r, hr, hk⟩ | hs
    · exact (h.submitted r hr (hk.direction ▸ hdir)).grows hg hk
    · exact hs
  bound c f' hf' m hm := by
    rcases hfile c f' hf' m hm with ⟨f, hf, hs, hm'⟩ | hc
    · exact ((h.bound c f hf m hm').grows hg).same hs
    · exact hc

/-! ## Calls, and what is new by them -/

inductive Call (ρ G : Type)
  | submit (grant : G) (p : BrowserPacket ρ)
  | stage (grant : G) (key : String) (i : StageInput)
  | read (grant : G) (key attachmentId : String) (includeBytes : Bool)

variable (K : Bridge ρ G) (call : Call ρ G)

/-- The record the packet is captured as, and what became of it since. -/
def Accepts (p : BrowserPacket ρ) (r : BrowserRecord ρ) : Prop :=
  ∃ attachments raw, Kept { record K.agent K.account p with attachments, raw } r

def SubmittedBy (r : BrowserRecord ρ) : Prop :=
  ∃ grant p, call = .submit grant p ∧ browserPacket K.js p = .ok p ∧
    K.authorize grant p.ticketKey .submit = true ∧ p.account = K.account ∧ Accepts K p r

/-- The file of these bytes, as the upload puts it in custody. -/
def stagedAs (c : String) (i : StageInput) (file : String) : Staged :=
  stagedOf K c i { file, mime := i.mime, bytes := i.bytes.length, sha256 := K.digest i.bytes }

def StagedBy (c : String) (f : Staged) : Prop :=
  ∃ grant key i file, call = .stage grant key i ∧ c = conversationOf K.account key ∧
    K.authorize grant key .submit = true ∧ (stagedAs K c i file).same f

variable {K call} in
theorem SubmittedBy.kept (h : SubmittedBy K call r) (hk : Kept r r') : SubmittedBy K call r' := by
  obtain ⟨grant, p, hc, hp, ha, hacc, as, raw, hr⟩ := h
  exact ⟨grant, p, hc, hp, ha, hacc, as, raw, hr.trans hk⟩

variable {K call} in
theorem StagedBy.same (h : StagedBy K call c f) (hs : f.same f') : StagedBy K call c f' := by
  obtain ⟨grant, key, i, file, hc, hconv, ha, hf⟩ := h
  exact ⟨grant, key, i, file, hc, hconv, ha, hf.trans hs⟩

/-- What is there now was there, or is the call's. -/
structure Comes (d₀ d : Custody ρ) : Prop where
  records : ∀ r ∈ d.records.rows, r.direction = .inbound →
    (∃ r₀ ∈ d₀.records.rows, Kept r₀ r) ∨ SubmittedBy K call r
  files : ∀ c, ∀ f ∈ (d.filesOf c).rows, (∃ f₀ ∈ (d₀.filesOf c).rows, f₀.same f) ∨ StagedBy K call c f

theorem Comes.refl (d : Custody ρ) : Comes K call d d :=
  ⟨fun r hr _ => .inl ⟨r, hr, .refl r⟩, fun _ f hf => .inl ⟨f, hf, rfl⟩⟩

/-! ## What one write may do -/

/-- The write is of no record and no thread. -/
def Act.plain : Act ρ → Bool
  | .record _ | .thread _ => false
  | _ => true

inductive Move (d : Custody ρ) : Act ρ → Prop
  | plain (a : Act ρ) : a.plain = true → Move d a
  | record (r : BrowserRecord ρ) : d.records.find r.id = none → Submission d r → SubmittedBy K call r →
      Move d (.record r)
  | staged (c : String) (f : Staged) : (d.filesOf c).find f.attachmentId = none → f.boundMessageId = none →
      StagedBy K call c f → Move d (.thread (d.withFiles c ((d.filesOf c).put f)))
  | bound (c : String) (ids : List String) (r : BrowserRecord ρ) (m : String) :
      d.records.find ⟨c, m, 0⟩ = some r → r.direction = .inbound → (∀ id ∈ ids, r.carries id = true) →
      (∀ id ∈ ids, ∀ f, (d.filesOf c).find id = some f → f.actor.id = r.senderId) →
      Move d (.thread (d.withFiles c (ids.foldl (bindOne m) (d.filesOf c))))

variable {K call} {a : Act ρ}

theorem plain_same (h : a.plain = true) :
    (a.apply d).records = d.records ∧ ∀ c, (a.apply d).filesOf c = d.filesOf c := by
  cases a <;> first | exact ⟨rfl, fun _ => rfl⟩ | cases h

theorem apply_bind (d : Custody ρ) (c : String) (ids : List String) (m : String) :
    (Act.thread (d.withFiles c (ids.foldl (bindOne m) (d.filesOf c)))).apply d = d.bindTo c ids m := rfl

variable (K call) in
/-- The file was there, bound as it was or to a message that carries it, or it is the call's. -/
def FileMove (d : Custody ρ) (c : String) (f' : Staged) : Prop :=
  (∃ f ∈ (d.filesOf c).rows, f.same f' ∧
    (f'.boundMessageId = f.boundMessageId ∨ ∃ m, f'.boundMessageId = some m ∧ Carrier d c f m)) ∨
  StagedBy K call c f' ∧ f'.boundMessageId = none

theorem Move.files (h : Move K call d a) {f' : Staged} (hf : f' ∈ ((a.apply d).filesOf c).rows) :
    FileMove K call d c f' := by
  cases h with
  | plain a ha =>
    rw [(plain_same ha).2] at hf
    exact .inl ⟨f', hf, rfl, .inl rfl⟩
  | record r hnone hs hby => exact .inl ⟨f', hf, rfl, .inl rfl⟩
  | staged c₁ f hfree hb hby =>
    rw [Act.apply, filesOf_withFiles] at hf
    split at hf
    · rename_i hc
      subst hc
      rcases Table.mem_put.1 hf with rfl | ⟨hf, -⟩
      · exact .inr ⟨hby, hb⟩
      · exact .inl ⟨f', hf, rfl, .inl rfl⟩
    · exact .inl ⟨f', hf, rfl, .inl rfl⟩
  | bound c₁ ids r m hr hdir hcar hactor =>
    have hfind := Table.mem_find hf
    rw [apply_bind, find_bindTo] at hfind
    obtain ⟨f, hold, hf'⟩ := Option.map_eq_some_iff.1 hfind
    refine .inl ⟨f, Table.find_mem hold, ?_⟩
    have hid : f.attachmentId = f'.attachmentId := Table.find_key hold
    split at hf'
    · rename_i hin
      obtain ⟨rfl, hin⟩ := hin
      subst hf'
      refine ⟨rfl, ?_⟩
      cases hb : f.boundMessageId with
      | some m' => exact .inl (by simp [Staged.boundTo, hb])
      | none =>
        refine .inr ⟨m, by simp [Staged.boundTo, hb], r, hr, hdir, ?_, ?_⟩
        · exact (hactor _ hin f hold).symm
        · rw [hid]
          exact hcar _ hin
    · subst hf'
      exact ⟨rfl, .inl rfl⟩

theorem Move.records (h : Move K call d a) {r' : BrowserRecord ρ} (hr : r' ∈ (a.apply d).records.rows) :
    r' ∈ d.records.rows ∨ Submission d r' ∧ SubmittedBy K call r' := by
  cases h with
  | plain a ha =>
    rw [(plain_same ha).1] at hr
    exact .inl hr
  | record r hnone hs hby =>
    rcases Table.mem_put.1 hr with rfl | ⟨hr, -⟩
    · exact .inr ⟨hs, hby⟩
    · exact .inl hr
  | staged => exact .inl hr
  | bound => exact .inl hr

theorem Move.grows (h : Move K call d a) : Grows d (a.apply d) := by
  cases h with
  | plain a ha =>
    obtain ⟨hrec, hfiles⟩ := plain_same (d := d) ha
    exact ⟨fun i r hr => ⟨r, hrec ▸ hr, .refl r⟩, fun c id f hf => ⟨f, hfiles c ▸ hf, rfl, fun _ hm => hm⟩⟩
  | record r hnone hs hby =>
    refine ⟨fun i r₀ hr => ⟨r₀, ?_, .refl r₀⟩, fun c id f hf => ⟨f, hf, rfl, fun _ hm => hm⟩⟩
    have hne : i ≠ r.id := by
      rintro rfl
      rw [hnone] at hr
      cases hr
    exact (Table.find_put_other _ _ hne).trans hr
  | staged c₁ f hfree hb hby =>
    refine ⟨fun i r hr => ⟨r, hr, .refl r⟩, fun c id f₀ hf => ⟨f₀, ?_, rfl, fun _ hm => hm⟩⟩
    rw [Act.apply, filesOf_withFiles]
    split
    · rename_i hc
      subst hc
      have hne : id ≠ f.attachmentId := by
        rintro rfl
        rw [hfree] at hf
        cases hf
      exact (Table.find_put_other _ _ hne).trans hf
    · exact hf
  | bound c₁ ids r m hr hdir hcar hactor =>
    refine ⟨fun i r hr => ⟨r, hr, .refl r⟩, fun c id f hf => ?_⟩
    refine ⟨if c = c₁ ∧ id ∈ ids then f.boundTo m else f, ?_, ?_, fun m' hm => ?_⟩
    · rw [apply_bind, find_bindTo, hf]
      rfl
    · split <;> rfl
    · split
      · simp [Staged.boundTo, hm]
      · exact hm

theorem Move.sound (h : Move K call d a) (hs : Sound d) : Sound (a.apply d) := by
  refine hs.grows h.grows (fun r' hr' _ => ?_) fun c f' hf' m hm => ?_
  · rcases h.records hr' with hr | ⟨hnew, -⟩
    · exact .inl ⟨r', hr, .refl r'⟩
    · exact .inr (hnew.grows h.grows (.refl r'))
  · rcases h.files hf' with ⟨f, hf, hsame, hb | ⟨m', hb, hcar⟩⟩ | ⟨-, hb⟩
    · exact .inl ⟨f, hf, hsame, hb ▸ hm⟩
    · obtain rfl := Option.some.inj (hb.symm.trans hm)
      exact .inr ((hcar.grows h.grows).same hsame)
    · rw [hb] at hm
      cases hm

theorem Move.comes (h : Move K call d a) (hc : Comes K call d₀ d) : Comes K call d₀ (a.apply d) where
  records r' hr' hdir := by
    rcases h.records hr' with hr | ⟨-, hby⟩
    · exact hc.records r' hr hdir
    · exact .inr hby
  files c f' hf' := by
    rcases h.files hf' with ⟨f, hf, hsame, -⟩ | ⟨hby, -⟩
    · rcases hc.files c f hf with ⟨f₀, hf₀, hsame₀⟩ | hby
      · exact .inl ⟨f₀, hf₀, hsame₀.trans hsame⟩
      · exact .inr (hby.same hsame)
    · exact .inr hby

/-! ## The protocol of a call -/

variable (K call)

/-- Only moves, from a custody that `d₀` was at first; a call is alone while it runs. -/
def moving (d₀ : Custody ρ) : Proto (sig ρ) where
  inv d := Sound d ∧ Grows d₀ d ∧ Comes K call d₀ d
  ok a d := Move K call d a
  heard q a d := (sig ρ).valid q a d
  rely _ d d' := d' = d
  act_inv _ _ h hm := ⟨hm.sound h.1, h.2.1.trans hm.grows, hm.comes h.2.2⟩
  hear_inv _ _ _ h _ := h
  rely_inv _ _ _ h hr := by cases hr; exact h
  rely_refl _ _ := rfl
  rely_trans _ _ _ _ h h' := h'.trans h

end CarbonRuntime.Browser
