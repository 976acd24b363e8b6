import CarbonRuntime.Stream.Store

/-!
# What the store's functions do, as rules

The weakest preconditions of the effects by name, and one rule for each store
function that writes: `wp_rewrite` for the functions that put something on a
record that is there, `wp_captureWrite` for the write of a capture,
`wp_settle` for the two writes of a settlement. The rules hold of every protocol,
so each caller brings the guard its own writes meet.

`SeqOnly s s'` is that `s'` is `s` up to the store's ordinal, which a capture and a
write on a browser record take first, and the raw payloads.
-/

open CarbonRuntime.Core CarbonRuntime.Stream

namespace CarbonRuntime.Store

variable {L : Loop} {P : Proto (sig L)} {α : Type} {X : Err → World → Prop} {s : World}

/-! ## The effects, by name -/

@[simp] theorem wp_fetch {Q : World → World → Prop} : Prog.wp P (fetch L) Q X s ↔ Q s s :=
  Prog.wp_get (𝔖 := sig L)

@[simp] theorem wp_write (w : Act) {Q : Unit → World → Prop} :
    Prog.wp P (write L w) Q X s ↔ P.ok w s ∧ (P.inv (w.apply s) → Q () (w.apply s)) :=
  Prog.wp_perform (𝔖 := sig L) w

@[simp] theorem wp_mark (e : Event) {Q : Unit → World → Prop} :
    Prog.wp P (mark L e) Q X s ↔
      P.ok (.mark e) s ∧ (P.inv ((Act.mark e).apply s) → Q () ((Act.mark e).apply s)) :=
  Prog.wp_perform (𝔖 := sig L) _

@[simp] theorem wp_ask (q : Ask) {Q : q.Answer → World → Prop} :
    Prog.wp P (ask L q) Q X s ↔ ∀ s₁, P.rely q s s₁ → ∀ a, P.heard q a s₁ →
      P.inv (q.after a s₁) → Q a (q.after a s₁) :=
  Prog.wp_ask (𝔖 := sig L) q

@[simp] theorem wp_raise (e : Err) {Q : α → World → Prop} :
    Prog.wp P (raise L e : Program L α) Q X s ↔ X e s :=
  Prog.wp_throw (𝔖 := sig L) e

@[simp] theorem wp_refuse (faults : List Fault) {Q : Unit → World → Prop} :
    Prog.wp P (refuse L faults) Q X s ↔
      (faults = [] → Q () s) ∧ (faults ≠ [] → X (.stream faults) s) := by
  unfold refuse
  split
  · rename_i h
    simp [h]
  · rename_i h
    simp [h]

/-! ## The ordinal -/

/-- `s` with another ordinal, and other payloads. -/
def SeqOnly (s s' : World) : Prop :=
  ∃ n raws, s' = { s with disk := { s.disk with seq := n, raws } }

theorem SeqOnly.refl (s : World) : SeqOnly s s := ⟨s.disk.seq, s.disk.raws, rfl⟩

theorem SeqOnly.trans {s s₁ s₂ : World} (h : SeqOnly s s₁) (h' : SeqOnly s₁ s₂) :
    SeqOnly s s₂ := by
  obtain ⟨_, _, rfl⟩ := h
  obtain ⟨n, raws, rfl⟩ := h'
  exact ⟨n, raws, rfl⟩

theorem SeqOnly.apply (n : Nat) (s : World) : SeqOnly s ((Act.seq n).apply s) := ⟨n, _, rfl⟩

theorem SeqOnly.raw (i : Identity) (payload : String) (s : World) :
    SeqOnly s ((Act.raw i payload).apply s) := ⟨_, _, rfl⟩

section
variable {s' : World} (h : SeqOnly s s')
include h

theorem SeqOnly.records : s'.disk.records = s.disk.records := by obtain ⟨_, _, rfl⟩ := h; rfl

theorem SeqOnly.requests : s'.disk.requests = s.disk.requests := by obtain ⟨_, _, rfl⟩ := h; rfl

theorem SeqOnly.teachings : s'.disk.teachings = s.disk.teachings := by obtain ⟨_, _, rfl⟩ := h; rfl

theorem SeqOnly.mem : s'.mem = s.mem := by obtain ⟨_, _, rfl⟩ := h; rfl

theorem SeqOnly.ghost : s'.ghost = s.ghost := by obtain ⟨_, _, rfl⟩ := h; rfl

theorem SeqOnly.hist : s'.hist = s.hist := by obtain ⟨_, _, rfl⟩ := h; rfl

theorem SeqOnly.clock : s'.clock = s.clock := by obtain ⟨_, _, rfl⟩ := h; rfl

end

theorem wp_nextSeq {Q : Nat → World → Prop} (hok : P.ok (.seq (s.disk.seq + 1)) s)
    (hQ : ∀ s', SeqOnly s s' → s'.disk.seq = s.disk.seq + 1 → P.inv s' → Q (s.disk.seq + 1) s') :
    Prog.wp P (nextSeq L) Q X s := by
  simp only [nextSeq, Prog.wp_bind, wp_fetch, wp_write, Prog.wp_pure]
  exact ⟨hok, fun hi => hQ _ (.apply _ s) rfl hi⟩

/-- `r` with another ordinal on it. -/
structure Stamped (r r' : MessageRecord) : Prop where
  eq : r' = { r with adapterFields := r'.adapterFields }
  fields : ∃ n, r'.adapterFields = { r.adapterFields with browserEventSeq := n }

theorem Stamped.refl (r : MessageRecord) : Stamped r r := ⟨rfl, _, rfl⟩

theorem Stamped.parkReason {r r' : MessageRecord} (h : Stamped r r') :
    r'.adapterFields.parkReason = r.adapterFields.parkReason := by
  obtain ⟨n, hn⟩ := h.fields
  rw [hn]

theorem Stamped.uncertain {r r' : MessageRecord} (h : Stamped r r') :
    r'.uncertain = r.uncertain := by
  obtain ⟨n, hn⟩ := h.fields
  rw [MessageRecord.uncertain, MessageRecord.uncertain, hn]

theorem Stamped.id {r r' : MessageRecord} (h : Stamped r r') : r'.id = r.id := by rw [h.eq]; rfl

theorem wp_stamp (r : MessageRecord) {Q : MessageRecord → World → Prop} (hs : P.inv s)
    (hok : P.ok (.seq (s.disk.seq + 1)) s)
    (hQ : ∀ r' s', Stamped r r' → SeqOnly s s' → P.inv s' → Q r' s') :
    Prog.wp P (stamp L r) Q X s := by
  unfold stamp
  split
  · rw [Prog.wp_bind]
    exact wp_nextSeq hok fun s' h _ hi => (Prog.wp_pure _).2 (hQ _ s' ⟨rfl, _, rfl⟩ h hi)
  · exact (Prog.wp_pure r).2 (hQ r s (.refl r) (.refl s) hs)

/-! ## Writing on a record that is there -/

theorem wp_rewrite (i : Identity) (f : MessageRecord → MessageRecord)
    {Q : MessageRecord → World → Prop} (hs : P.inv s) (hok : P.ok (.seq (s.disk.seq + 1)) s)
    (hX : ∀ e, X e s)
    (hQ : ∀ old new s', s.disk.records.find i = some old → Stamped (f old) new → SeqOnly s s' →
      P.inv s' → P.ok (.record new) s' ∧
        (P.inv ((Act.record new).apply s') → Q new ((Act.record new).apply s'))) :
    Prog.wp P (rewrite L i f) Q X s := by
  simp only [rewrite, Prog.wp_bind, wp_refuse, wp_fetch]
  refine ⟨fun _ => ?_, fun _ => hX _⟩
  split
  · exact (wp_raise _).2 (hX _)
  · rename_i old hold
    rw [Prog.wp_bind]
    refine wp_stamp _ hs hok fun new s' hnew hs' hi' => ?_
    simpa only [Prog.wp_bind, wp_write, Prog.wp_pure] using hQ old new s' hold hnew hs' hi'

/-! ## Capture -/

theorem wp_captureWrite (r : MessageRecord) (seq : Nat) {Q : MessageRecord × Bool → World → Prop}
    (hX : ∀ e, X e s)
    (hmerge : ∀ old, s.disk.records.find r.id = some old →
      (mergeRecords old r ≠ old → P.ok (.record (mergeRecords old r)) s ∧
        (P.inv ((Act.record (mergeRecords old r)).apply s) →
          Q (mergeRecords old r, true) ((Act.record (mergeRecords old r)).apply s))) ∧
      (mergeRecords old r = old → Q (old, true) s))
    (hfresh : s.disk.records.find r.id = none → P.ok (.record r) s ∧
      (P.inv ((Act.record r).apply s) →
        P.ok (.index ⟨seq, r.id⟩) ((Act.record r).apply s) ∧
          (P.inv ((Act.index ⟨seq, r.id⟩).apply ((Act.record r).apply s)) →
            Q (r, false) ((Act.index ⟨seq, r.id⟩).apply ((Act.record r).apply s))))) :
    Prog.wp P (captureWrite L r seq) Q X s := by
  simp only [captureWrite, Prog.wp_bind, wp_fetch]
  split
  · rename_i old hold
    split
    · exact (wp_raise _).2 (hX _)
    · obtain ⟨h₁, h₂⟩ := hmerge old hold
      by_cases hne : mergeRecords old r = old
      · simpa only [hne, ne_eq, not_true_eq_false, if_false, Prog.wp_bind, Prog.wp_pure]
          using h₂ hne
      · simpa only [hne, ne_eq, not_false_eq_true, if_true, Prog.wp_bind, wp_write,
          Prog.wp_pure] using h₁ hne
  · rename_i hnone
    simpa only [Prog.wp_bind, wp_write, Prog.wp_pure] using hfresh hnone

@[simp] theorem appendRaw_none (i : Identity) : appendRaw L i none = pure () := rfl

theorem wp_appendRaw (i : Identity) (raw : Option String) {Q : Unit → World → Prop} (hs : P.inv s)
    (hok : ∀ payload, P.ok (.raw i payload) s)
    (hQ : ∀ s', SeqOnly s s' → s'.disk.seq = s.disk.seq → P.inv s' → Q () s') :
    Prog.wp P (appendRaw L i raw) Q X s := by
  cases raw with
  | none => exact (Prog.wp_pure _).2 (hQ s (.refl s) rfl hs)
  | some payload => exact (wp_write _).2 ⟨hok payload, fun hi => hQ _ (.raw _ _ s) rfl hi⟩

theorem acceptBrowserInput_outbound {r : MessageRecord} (h : r.direction = .outbound) :
    acceptBrowserInput L r = pure () := by
  unfold acceptBrowserInput
  rw [if_neg]
  simp [h]

/-- The capture of a reply: no cursor, and nothing a browser's loop would steer. -/
theorem wp_captureOutbound (r : MessageRecord) (hdir : r.direction = .outbound)
    {Q : MessageRecord → World → Prop} (hok : P.ok (.seq (s.disk.seq + 1)) s)
    (hX : ∀ e s', SeqOnly s s' → X e s')
    (hmerge : ∀ old s', s.disk.records.find r.id = some old → SeqOnly s s' → P.inv s' →
      (mergeRecords old r ≠ old → P.ok (.record (mergeRecords old r)) s' ∧
        (P.inv ((Act.record (mergeRecords old r)).apply s') →
          Q (mergeRecords old r) ((Act.record (mergeRecords old r)).apply s'))) ∧
      (mergeRecords old r = old → Q old s'))
    (hfresh : ∀ seq s', s.disk.records.find r.id = none → SeqOnly s s' → P.inv s' →
      P.ok (.record r) s' ∧ (P.inv ((Act.record r).apply s') →
        P.ok (.index ⟨seq, r.id⟩) ((Act.record r).apply s') ∧
          (P.inv ((Act.index ⟨seq, r.id⟩).apply ((Act.record r).apply s')) →
            Q r ((Act.index ⟨seq, r.id⟩).apply ((Act.record r).apply s'))))) :
    Prog.wp P (capture L r) Q X s := by
  simp only [capture, Prog.wp_bind, wp_refuse, Prog.wp_andFinally]
  refine ⟨fun _ => ⟨fun _ => ?_, fun _ => hX _ s (.refl s)⟩, fun _ => hX _ s (.refl s)⟩
  refine wp_nextSeq hok fun s' hs' _ hi' => ?_
  simp only [appendRaw_none, Prog.wp_pure]
  refine wp_captureWrite r _ (fun e => hX e s' hs') (fun old hold => ?_) fun hnone => ?_
  · rw [hs'.records] at hold
    simpa using hmerge old s' hold hs' hi'
  · rw [hs'.records] at hnone
    simpa [acceptBrowserInput_outbound hdir] using hfresh _ s' hnone hs' hi'

theorem outbound_of_replyFaults {r : MessageRecord} {owned : List MessageRecord}
    (h : replyFaults r owned = []) : r.direction = .outbound := by
  by_contra hne
  simp [replyFaults, hne] at h

/-! ## Holds -/

/-- The record's hold is one that `heldUntil` counts and that lasts beyond `t`. -/
def Holding (L : Loop) (t : Int) (r : MessageRecord) : Prop :=
  ∃ hold setAt, r.hold = some hold ∧ L.js.parse hold.setAt = some setAt ∧
    ∀ ms, hold.releaseAfterMs = some ms → t < max 0 (setAt + ms)

theorem heldUntil_iff (t : Int) (records : List MessageRecord) :
    ∀ acc : Option Int, (∀ u ∈ acc, 0 ≤ u) → ((heldUntil L acc records).any (Until.after t) = true ↔
      (∃ u ∈ acc, t < u) ∨ ∃ r ∈ records, Holding L t r) := by
  induction records with
  | nil =>
    intro acc _
    cases acc <;> simp [heldUntil, Until.after]
  | cons r more ih =>
    intro acc hacc
    have skip : ¬ Holding L t r → ((heldUntil L acc more).any (Until.after t) = true ↔
        (∃ u ∈ acc, t < u) ∨ ∃ x ∈ r :: more, Holding L t x) := by
      intro hr
      rw [ih acc hacc]
      simp [hr]
    rw [heldUntil]
    split
    · rename_i hnone
      exact skip (by rintro ⟨_, _, h, _⟩; rw [hnone] at h; cases h)
    · rename_i hold hhold
      split
      · rename_i hparse
        exact skip (by
          rintro ⟨_, _, h, hp, _⟩
          rw [hhold] at h
          cases h
          rw [hparse] at hp
          cases hp)
      · rename_i setAt hparse
        split
        · rename_i hms
          have hr : Holding L t r := ⟨hold, setAt, hhold, hparse, fun ms h => by
            rw [hms] at h
            cases h⟩
          simp only [Option.any_some, Until.after, true_iff]
          exact .inr ⟨r, List.mem_cons_self, hr⟩
        · rename_i ms hms
          have hr : Holding L t r ↔ t < max 0 (setAt + ms) := by
            constructor
            · rintro ⟨_, _, h, hp, hlt⟩
              rw [hhold] at h
              cases h
              rw [hparse] at hp
              cases hp
              exact hlt ms hms
            · exact fun h => ⟨hold, setAt, hhold, hparse, fun ms' h' => by
                rw [hms] at h'
                cases h'
                exact h⟩
          rw [ih _ (by
            intro u hu
            cases hu
            cases acc with
            | none => exact Int.le_max_left _ _
            | some v => exact Int.le_trans (hacc v rfl) (Int.le_max_left _ _))]
          cases acc with
          | none => simp [hr]
          | some v =>
            have := hacc v rfl
            simp only [Option.getD_some, Option.mem_def, Option.some.injEq, exists_eq_left',
              List.mem_cons, exists_eq_or_imp, hr]
            constructor
            · rintro (h | h)
              · omega
              · exact .inr (.inr h)
            · rintro (h | h | h)
              · exact .inl (by omega)
              · exact .inl (by omega)
              · exact .inr h

/-- A conversation is held when one of its records holds it. -/
theorem isHeld_iff (records : List MessageRecord) (t : Int) :
    isHeld L records t = true ↔ ∃ r ∈ records, Holding L t r := by
  rw [isHeld, heldUntil_iff t records none (by simp)]
  simp

/-! ## Settlement -/

/-- Why a settlement under a request id is refused, for a state. -/
inductive SettleError (L : Loop) (requestId : String) (s : World) : Err → Prop
  | component (faults : List Fault) : faults ≠ [] → SettleError L requestId s (.stream faults)
  | unknown : s.disk.requests.find requestId = none →
      SettleError L requestId s (.stream [requestUnknown requestId])
  | record {q : ReplyRequest} : s.disk.requests.find requestId = some q →
      s.disk.records.find q.names = none →
      SettleError L requestId s (.thrown "Cannot read properties of null (reading 'delivery')")

theorem wp_settle (requestId : String) (status : Status) (chunkIds : Option (List String))
    (completedAt : Option String) {Q : MessageRecord → World → Prop} (hs : P.inv s)
    (hok : P.ok (.seq (s.disk.seq + 1)) s) (hX : ∀ e, SettleError L requestId s e → X e s)
    (hQ : ∀ q old new s', s.disk.requests.find requestId = some q →
      s.disk.records.find q.names = some old →
      Stamped (settled status chunkIds completedAt old) new → SeqOnly s s' → P.inv s' →
      let q' := { q with status, chunkIds := chunkIds.getD q.chunkIds }
      P.ok (.record new) s' ∧ (P.inv ((Act.record new).apply s') →
        P.ok (.request q') ((Act.record new).apply s') ∧
          (P.inv ((Act.request q').apply ((Act.record new).apply s')) →
            Q new ((Act.request q').apply ((Act.record new).apply s'))))) :
    Prog.wp P (settleDelivery L requestId status chunkIds completedAt) Q X s := by
  simp only [settleDelivery, readRequest, read, Prog.wp_bind, wp_refuse, wp_fetch, Prog.wp_pure]
  refine ⟨fun _ => ?_, fun h => hX _ (.component _ h)⟩
  split
  · rename_i hnone
    exact (wp_raise _).2 (hX _ (.unknown hnone))
  · rename_i q hq
    simp only [Prog.wp_bind, wp_refuse, wp_fetch, Prog.wp_pure]
    refine ⟨fun _ => ?_, fun h => hX _ (.component _ h)⟩
    split
    · rename_i hnone
      exact (wp_raise _).2 (hX _ (.record hq hnone))
    · rename_i old hold
      rw [Prog.wp_bind]
      refine wp_stamp _ hs hok fun new s' hnew hs' hi' => ?_
      simpa only [Prog.wp_bind, wp_write, Prog.wp_pure] using hQ q old new s' hq hold hnew hs' hi'

/-! ## A run by itself -/

/-- Where there are no others, nothing is between an ask and its answer. -/
theorem still_refl (_ : Ask) (s : World) : s = s := rfl

theorem still_trans (_ : Ask) (s₁ s₂ s₃ : World) (h : s₂ = s₁) (h' : s₃ = s₂) : s₃ = s₁ := h'.trans h

/-- No guard and no others: what a run comes to, whatever state it is taken from. -/
def plain (L : Loop) : Proto (sig L) where
  inv _ := True
  ok _ _ := True
  heard q a s := q.fits L.browser a s
  rely _ s s' := s' = s
  act_inv _ _ _ _ := trivial
  hear_inv _ _ _ _ _ := trivial
  rely_inv _ _ _ _ _ := trivial
  rely_refl := still_refl
  rely_trans := still_trans

theorem plain_runs {p : Program L α} {Q : α → World → Prop} {s' : World} {r : Prog.Result (sig L) α}
    (h : Prog.Runs p s r s') (hw : Prog.wp (plain L) p Q X s) :
    match r with
      | .ok a => Q a s'
      | .error e => X e s' := by
  have := (Prog.wp_runs (P := plain L) (fun _ _ _ hv => hv.1) h trivial hw).2
  cases r <;> exact this

/-- Of any program nothing may be said. -/
theorem plain_any (p : Program L α) : ∀ s, Prog.wp (plain L) p (fun _ _ => True) (fun _ _ => True) s := by
  induction p with
  | ret a => exact fun s => (Prog.wp_ret (𝔖 := sig L) a).2 trivial
  | throw e => exact fun s => (Prog.wp_throw (𝔖 := sig L) e).2 trivial
  | read k ih => exact fun s => (Prog.wp_read (𝔖 := sig L) k).2 (ih s s)
  | act w k ih => exact fun s => (Prog.wp_act (𝔖 := sig L) w k).2 ⟨trivial, fun _ => ih _⟩
  | hear q k ih =>
    exact fun s => (Prog.wp_hear (𝔖 := sig L) q k).2 fun s₁ _ a _ _ => ih a _

/-- A listing, and what is answered at once. -/
theorem plain_ask {q : Ask} {Q : q.Answer → World → Prop}
    (h : ∀ a, q.fits L.browser a s → Q a (q.after a s)) :
    Prog.wp (plain L) (ask L q) Q X s := by
  refine (wp_ask q).2 fun s₁ hr a ha _ => ?_
  cases (show s₁ = s from hr)
  exact h a ha

end CarbonRuntime.Store
