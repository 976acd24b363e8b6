import CarbonRuntime.Core.Check
import CarbonRuntime.Stream.Converge
import CarbonRuntime.Stream.Teachings

/-!
# What is taught stays (stream/teachings.ts:157-422)

The store under any sequence of `remember`, `raiseChange` and `forget`, with captures between them. What a
whole call leaves is its decision on the teachings on disk and on the capture it cites (`call_runs`); a new
teaching takes a free id, and a forgotten one keeps its place (`Leaves`).

**Results.** `teachings_kept`: after every call of every run, at most `maxActive` instructions are active, each
teaching names the sender of an inbound capture it cites, and the next call writes one file or none.
-/

open CarbonRuntime.Core CarbonRuntime.Stream

namespace CarbonRuntime.Teachings

open Store

/-! ## The calls -/

/-- A call but for `max_active`, which is the declaration's. -/
inductive Teach
  | remember (maxChars : Nat) (a : Taught)
  | raiseChange (maxChars : Nat) (a : Taught) (failedQuestion : String)
  | forget (id conversationId sourceMessageId : String) (now : Int)

def Teach.program (L : Loop) (maxActive : Nat) : Teach → Program L Outcome
  | .remember maxChars a => Teachings.remember L ⟨maxActive, maxChars⟩ a
  | .raiseChange maxChars a failedQuestion => Teachings.raiseChange L ⟨maxActive, maxChars⟩ a failedQuestion
  | .forget id conversationId sourceMessageId now => Teachings.forget L id conversationId sourceMessageId now

/-- The conversation and the message a call cites. -/
def Teach.cites : Teach → String × String
  | .remember _ a => (a.conversationId, a.sourceMessageId)
  | .raiseChange _ a _ => (a.conversationId, a.sourceMessageId)
  | .forget _ conversationId sourceMessageId _ => (conversationId, sourceMessageId)

def Teach.decide (L : Loop) (maxActive : Nat) (d : Disk) (cited : List Fault × Option MessageRecord) :
    Teach → Except Err Outcome
  | .remember maxChars a => rememberOn L ⟨maxActive, maxChars⟩ d a cited
  | .raiseChange maxChars a failedQuestion => raiseChangeOn L ⟨maxActive, maxChars⟩ d a failedQuestion cited
  | .forget id _ sourceMessageId now => forgetOn L d id sourceMessageId now cited

/-- The teaching a call is told to take out of force. -/
def Teach.names : Teach → Option String
  | .forget id _ _ _ => some id
  | _ => none

/-- What is said again: an active instruction or an open change request, of this message and this text. -/
def Teach.again (L : Loop) (d : Disk) : Teach → Prop
  | .remember _ a => ∃ t ∈ active L d, sameTaught a t = true
  | .raiseChange _ a _ => ∃ t ∈ openChanges L d, sameTaught a t = true
  | .forget _ _ _ _ => False

/-- The adapter's captures, and the calls. -/
inductive Doing
  | capture (r : MessageRecord) (cursor : Option (CursorKind × String)) (typeFaults : List Fault)
      (raw : Option String)
  | teach (c : Teach) (x : Except Err Outcome)

def ended {L : Loop} : Except Err Outcome → Prog.Result (sig L) Outcome
  | .ok o => .ok o
  | .error e => .error e

/-- Whole calls one after the other, from a store that was taught nothing. -/
def teaching (L : Loop) (maxActive : Nat) : LTS World Doing where
  init s := s.disk.teachings = Table.empty
  step s
    | .capture r cursor typeFaults raw, s' =>
      ∃ x, Prog.Runs (Store.capture L r cursor typeFaults none raw) s x s'
    | .teach c x, s' => Prog.Runs (c.program L maxActive) s (ended x) s'

variable {L : Loop} {maxActive : Nat} {s s' : World} {d : Disk} {c : Teach} {x : Except Err Outcome}
  {cited : List Fault × Option MessageRecord} {o : Outcome} {a : Taught} {t : Teaching}
  {conversationId sourceMessageId : String}

/-! ## What is cited -/

/-- An inbound capture of the store, in the conversation and under the message id. -/
def Capture (d : Disk) (conversationId sourceMessageId : String) (r : MessageRecord) : Prop :=
  r ∈ d.records.rows ∧ r.conversationId = conversationId ∧ r.messageId = sourceMessageId ∧
    r.direction = .inbound

/-- A citation has faults, or is of a capture. -/
def Cited (d : Disk) (conversationId sourceMessageId : String) (cited : List Fault × Option MessageRecord) :
    Prop :=
  ∀ r, cited.2 = some r → Capture d conversationId sourceMessageId r

theorem captureIn_mem {records : List MessageRecord} {r : MessageRecord}
    (h : captureIn records sourceMessageId = some r) :
    r ∈ records ∧ r.messageId = sourceMessageId ∧ r.direction = .inbound := by
  have hmem := (sortBy_perm _ _).mem_iff.1 (List.mem_of_mem_head? h)
  obtain ⟨hr, hp⟩ := List.mem_filter.1 hmem
  simpa using And.intro hr hp

theorem wp_citedCapture {Q : List Fault × Option MessageRecord → World → Prop} {X : Err → World → Prop}
    (hQ : ∀ cited, Cited s.disk conversationId sourceMessageId cited → Q cited s) :
    Prog.wp (plain L) (citedCapture L conversationId sourceMessageId) Q X s := by
  unfold citedCapture
  dsimp only
  split
  · exact (Prog.wp_pure _).2 (hQ _ fun r h => by cases h)
  · rename_i hfaults
    have hconv : componentFaults L.js "conversation_id" conversationId = [] :=
      (List.append_eq_nil_iff.1 (not_not.1 hfaults)).1
    simp only [recordsIn, Prog.wp_bind, wp_refuse, Prog.wp_pure]
    refine ⟨fun _ => plain_ask fun records hperm => ?_, fun h => absurd hconv h⟩
    split
    · rename_i r hr
      refine (Prog.wp_pure _).2 (hQ _ fun r' h => ?_)
      obtain rfl := Option.some.inj h
      obtain ⟨hmem, hid, hdir⟩ := captureIn_mem hr
      obtain ⟨hmem, hc⟩ := List.mem_filter.1 hmem
      exact ⟨hperm.mem_iff.1 hmem, of_decide_eq_true hc, hid, hdir⟩
    · exact (Prog.wp_pure _).2 (hQ _ fun r h => by cases h)

/-! ## What is decided -/

theorem mem_listed : t ∈ listed L d ↔ t ∈ d.teachings.rows :=
  ((sortBy_perm _ _).trans (sortBy_perm _ _)).mem_iff

def isActive (t : Teaching) : Bool := t.kind == .instruction && t.status == .active

theorem length_active : (active L d).length = d.teachings.rows.countP isActive := by
  rw [List.countP_eq_length_filter]
  exact (((sortBy_perm _ _).trans (sortBy_perm _ _)).filter isActive).length_eq

theorem freeIdFrom_free {tries : Nat} {at_ : Int} {id : String}
    (h : freeIdFrom L d sourceMessageId tries at_ = some id) : d.teachings.find id = none := by
  induction tries generalizing at_ with
  | zero => cases h
  | succ tries ih =>
    rw [freeIdFrom] at h
    split at h
    · rename_i hfree
      obtain rfl := Option.some.inj h
      exact Option.isNone_iff_eq_none.1 hfree
    · exact ih h

/-- What is written new: under a free id, of the capture that is cited. -/
structure Fresh (d : Disk) (a : Taught) (capture : MessageRecord) (t : Teaching) : Prop where
  free : d.teachings.find t.id = none
  conversation : t.conversationId = a.conversationId
  source : t.sourceMessageId = a.sourceMessageId
  taughtBy : t.taughtBy = taughtBy capture

theorem base_fresh {capture : MessageRecord} (h : base L d a capture = .ok t) : Fresh d a capture t := by
  unfold base at h
  split at h
  · cases h
  · split at h
    · cases h
    · rename_i hfree
      cases h
      exact ⟨freeIdFrom_free hfree, rfl, rfl, rfl⟩

theorem writable_eq {t' : Teaching} (h : writable L t = .ok t') : t' = t := by
  unfold writable at h
  split at h
  · exact (Except.ok.inj h).symm
  · cases h

theorem remember_cases {block : TeachingBlock} (h : rememberOn L block d a cited = .ok o) :
    o.already = true ∨ o.already = false ∧ (active L d).length < block.maxActive ∧
      (¬ ∃ t ∈ active L d, sameTaught a t = true) ∧
      ∃ capture, cited.2 = some capture ∧ Fresh d a capture o.record ∧ isActive o.record = true := by
  unfold rememberOn at h
  dsimp only at h
  split at h
  · left
    cases h
    rfl
  · rename_i hsame
    right
    split at h
    · rename_i capture hfaults hcited
      obtain ⟨hfaults, hcap⟩ := List.append_eq_nil_iff.1 hfaults
      obtain ⟨t, ht, hwrite⟩ := ok_bind.1 h
      obtain ⟨t', ht', he⟩ := ok_bind.1 hwrite
      obtain rfl := writable_eq ht'
      cases he
      have hnone : (active L d).find? (sameTaught a) = none := by
        cases hfind : (active L d).find? (sameTaught a) with
        | none => rfl
        | some u => exact absurd hfaults (hsame u hfind)
      rw [hnone] at hcap
      refine ⟨rfl, ?_, ?_, capture, hcited, base_fresh ht, ?_⟩
      · by_contra hge
        simp [Nat.not_lt.1 hge] at hcap
      · rintro ⟨u, hu, hau⟩
        exact List.find?_eq_none.1 hnone u hu hau
      · unfold base at ht
        split at ht
        · cases ht
        · split at ht
          · cases ht
          · cases ht
            rfl
    · cases h

theorem raiseChange_cases {block : TeachingBlock} {failedQuestion : String}
    (h : raiseChangeOn L block d a failedQuestion cited = .ok o) :
    o.already = true ∨ o.already = false ∧ (¬ ∃ t ∈ openChanges L d, sameTaught a t = true) ∧
      ∃ capture, cited.2 = some capture ∧ Fresh d a capture o.record ∧ isActive o.record = false := by
  unfold raiseChangeOn at h
  dsimp only at h
  split at h
  · left
    cases h
    rfl
  · rename_i hsame
    right
    split at h
    · rename_i capture hfaults hcited
      obtain ⟨t, ht, hwrite⟩ := ok_bind.1 h
      obtain ⟨t', ht', he⟩ := ok_bind.1 hwrite
      obtain rfl := writable_eq ht'
      cases he
      have hnone : (openChanges L d).find? (sameTaught a) = none := by
        cases hfind : (openChanges L d).find? (sameTaught a) with
        | none => rfl
        | some u => exact absurd hfaults (hsame u hfind)
      refine ⟨rfl, ?_, capture, hcited, ⟨(base_fresh ht).free, (base_fresh ht).conversation,
        (base_fresh ht).source, (base_fresh ht).taughtBy⟩, rfl⟩
      rintro ⟨u, hu, hau⟩
      exact List.find?_eq_none.1 hnone u hu hau
    · cases h

/-- A teaching that is no longer in force. -/
def revoked (L : Loop) (sourceMessageId : String) (now : Int) (t : Teaching) : Teaching :=
  { t with status := .forgotten, forgotten := some ⟨L.js.iso now, sourceMessageId⟩ }

theorem forget_cases {id : String} {now : Int} (h : forgetOn L d id sourceMessageId now cited = .ok o) :
    o.already = false ∧ ∃ t ∈ active L d, t.id = id ∧ o.record = revoked L sourceMessageId now t := by
  unfold forgetOn at h
  split at h
  · rename_i held hheld _
    obtain ⟨t, ht, he⟩ := ok_bind.1 h
    obtain rfl := writable_eq ht
    cases he
    exact ⟨rfl, held, List.mem_of_find?_eq_some hheld, by simpa using List.find?_some hheld, rfl⟩
  · cases h
  · cases h

/-! ## What a call leaves -/

/-- What a call leaves of the teachings: all as they were, one more, or one taken out of force. -/
inductive Leaves (L : Loop) (maxActive : Nat) (d : Disk) : Teach → Table Teaching.id → Prop
  | same (c : Teach) : Leaves L maxActive d c d.teachings
  | more {c : Teach} {t : Teaching} {r : MessageRecord} : c.names = none → ¬ c.again L d →
      d.teachings.find t.id = none → Capture d t.conversationId t.sourceMessageId r → t.taughtBy = taughtBy r →
      (isActive t = true → (active L d).length < maxActive) → Leaves L maxActive d c (d.teachings.put t)
  | revoked {conversationId sourceMessageId : String} {now : Int} {t : Teaching} : t ∈ d.teachings.rows →
      Leaves L maxActive d (.forget t.id conversationId sourceMessageId now)
        (d.teachings.put (Teachings.revoked L sourceMessageId now t))

theorem Fresh.capture {capture : MessageRecord} (h : Fresh d a capture t)
    (hc : Cited d a.conversationId a.sourceMessageId cited) (hcapture : cited.2 = some capture) :
    Capture d t.conversationId t.sourceMessageId capture := by
  rw [h.conversation, h.source]
  exact hc capture hcapture

/-- The disk after a decision was carried out. -/
def left (d : Disk) : Except Err Outcome → Disk
  | .ok o => if o.already then d else { d with teachings := d.teachings.put o.record }
  | .error _ => d

theorem decide_leaves (hc : Cited d c.cites.1 c.cites.2 cited) (h : c.decide L maxActive d cited = .ok o)
    (hnew : o.already = false) : Leaves L maxActive d c (d.teachings.put o.record) := by
  cases c with
  | remember maxChars a =>
    rcases remember_cases h with hal | ⟨-, hcap, hagain, capture, hcapture, hfresh, -⟩
    · rw [hnew] at hal
      cases hal
    · exact .more rfl hagain hfresh.free (hfresh.capture hc hcapture) hfresh.taughtBy fun _ => hcap
  | raiseChange maxChars a failedQuestion =>
    rcases raiseChange_cases h with hal | ⟨-, hagain, capture, hcapture, hfresh, hidle⟩
    · rw [hnew] at hal
      cases hal
    · refine .more rfl hagain hfresh.free (hfresh.capture hc hcapture) hfresh.taughtBy fun hact => ?_
      rw [hidle] at hact
      cases hact
  | forget id conversationId sourceMessageId now =>
    obtain ⟨-, t, ht, rfl, hrecord⟩ := forget_cases h
    rw [hrecord]
    exact .revoked (mem_listed.1 (List.mem_of_mem_filter ht))

theorem wp_enact {Q : Outcome → World → Prop} {X : Err → World → Prop} {decided : Except Err Outcome}
    (hQ : ∀ o s', decided = .ok o → s'.disk = left s.disk decided → Q o s')
    (hX : ∀ e, decided = .error e → X e s) : Prog.wp (plain L) (enact L decided) Q X s := by
  unfold enact
  cases decided with
  | error e => exact (wp_raise e).2 (hX e rfl)
  | ok o =>
    dsimp only
    split
    · rename_i hnew
      simp only [Prog.wp_bind, wp_write, Prog.wp_pure]
      refine ⟨trivial, fun _ => hQ o _ rfl ?_⟩
      rw [left, if_neg (by simpa using hnew)]
      rfl
    · rename_i hold
      simp only [Prog.wp_pure]
      refine hQ o s rfl ?_
      rw [left, if_pos (by simpa using hold)]

/-- A whole call is its decision, on the teachings on disk and what it cites. -/
theorem call_runs (h : (teaching L maxActive).step s (.teach c x) s') :
    ∃ cited, Cited s.disk c.cites.1 c.cites.2 cited ∧ c.decide L maxActive s.disk cited = x ∧
      s'.disk = left s.disk x := by
  have hwp : Prog.wp (plain L) (c.program L maxActive)
      (fun o s' => ∃ cited, Cited s.disk c.cites.1 c.cites.2 cited ∧
        c.decide L maxActive s.disk cited = .ok o ∧ s'.disk = left s.disk (.ok o))
      (fun e s' => ∃ cited, Cited s.disk c.cites.1 c.cites.2 cited ∧
        c.decide L maxActive s.disk cited = .error e ∧ s'.disk = left s.disk (.error e)) s := by
    cases c
    all_goals
      simp only [Teach.program, remember, raiseChange, forget, Prog.wp_bind, wp_fetch]
      refine wp_citedCapture fun cited hc => wp_enact (fun o s' ho hs' => ?_) fun e he => ?_
      · exact ⟨cited, hc, ho, by rw [hs', ho]⟩
      · exact ⟨cited, hc, he, rfl⟩
  have := plain_runs h hwp
  cases x <;> exact this

theorem call_leaves (h : (teaching L maxActive).step s (.teach c x) s') :
    Leaves L maxActive s.disk c s'.disk.teachings ∧
      s'.disk = { s.disk with teachings := s'.disk.teachings } := by
  obtain ⟨cited, hc, hdecide, hdisk⟩ := call_runs h
  cases x with
  | error e =>
    rw [hdisk]
    exact ⟨.same c, rfl⟩
  | ok o =>
    rw [hdisk, left]
    split
    · exact ⟨.same c, rfl⟩
    · rename_i hnew
      exact ⟨decide_leaves hc hdecide (by simpa using hnew), rfl⟩

/-! ## Over runs -/

theorem captured_teachings (r : MessageRecord) (cursor : Option (CursorKind × String)) (typeFaults : List Fault)
    (raw : Option String) : (captured L.js r cursor typeFaults raw d).2.teachings = d.teachings := by
  have hadvance : ∀ d : Disk, (d.advanceTo r.conversationId cursor).teachings = d.teachings := by
    intro d
    cases cursor with
    | none => rfl
    | some k =>
      simp only [Disk.advanceTo, Disk.advance]
      split <;> rfl
  unfold captured
  split
  · dsimp only
    rw [hadvance, written]
    split
    · split
      · rfl
      · split <;> rfl
    · rfl
  · rfl

/-- No more instructions are in force than may be, and each teaching names the sender of a capture it cites. -/
structure Sound (L : Loop) (maxActive : Nat) (d : Disk) : Prop where
  cap : (active L d).length ≤ maxActive
  taught : ∀ t ∈ d.teachings.rows, ∃ r, Capture d t.conversationId t.sourceMessageId r ∧ t.taughtBy = taughtBy r

theorem length_active_put (h : d.teachings.find t.id = none) :
    (active L { d with teachings := d.teachings.put t }).length =
      (active L d).length + if isActive t then 1 else 0 := by
  rw [length_active, length_active, Table.rows_put_new h, List.countP_append, List.countP_singleton]

theorem Leaves.sound {u : Table Teaching.id} (h : Leaves L maxActive d c u) (hd : Sound L maxActive d) :
    Sound L maxActive { d with teachings := u } := by
  cases h with
  | same => exact hd
  | @more _ t r hnames hagain hfree hcapture hby hcap =>
    constructor
    · rw [length_active_put hfree]
      have := hd.cap
      split
      · rename_i hact
        have := hcap hact
        omega
      · omega
    · intro t' ht'
      rcases Table.mem_put.1 ht' with rfl | ⟨ht', -⟩
      · exact ⟨r, hcapture, hby⟩
      · exact hd.taught t' ht'
  | @revoked conversationId sourceMessageId now t ht =>
    constructor
    · have hle : (d.teachings.put (Teachings.revoked L sourceMessageId now t)).rows.countP isActive ≤
          d.teachings.rows.countP isActive := Table.countP_put_le (by simp [isActive, Teachings.revoked])
      rw [← length_active] at hle
      rw [length_active]
      exact Nat.le_trans hle hd.cap
    · intro t' ht'
      rcases Table.mem_put.1 ht' with rfl | ⟨ht', -⟩
      · exact hd.taught t ht
      · exact hd.taught t' ht'

/-- A capture stays one as records are captured. -/
theorem Capture.extends {t t' : Table MessageRecord.id} {r : MessageRecord}
    (h : Capture { d with records := t } conversationId sourceMessageId r) (ht : Extends t t') :
    ∃ y, Capture { d with records := t' } conversationId sourceMessageId y ∧ taughtBy y = taughtBy r := by
  obtain ⟨hmem, hc, hid, hdir⟩ := h
  obtain ⟨y, hy, hg⟩ := ht r.id r (Table.mem_find hmem)
  refine ⟨y, ⟨Table.find_mem hy, ?_, ?_, ?_⟩, ?_⟩
  · rw [hg.eq]
    exact hc
  · rw [hg.eq]
    exact hid
  · rw [hg.eq]
    exact hdir
  · rw [hg.eq]
    rfl

theorem sound_inductive : (teaching L maxActive).Inductive fun s => Sound L maxActive s.disk := by
  constructor
  · intro s h
    have hrows : s.disk.teachings.rows = [] := by rw [show s.disk.teachings = Table.empty from h]; rfl
    constructor
    · rw [length_active, hrows]
      exact Nat.zero_le _
    · rw [hrows]
      simp
  · intro s l s' hs hst
    cases l with
    | capture r cursor typeFaults raw =>
      obtain ⟨x, hrun⟩ := hst
      have hdisk := capture_disk hrun
      have hteachings : s'.disk.teachings = s.disk.teachings := by rw [hdisk, captured_teachings]
      have hext : Extends s.disk.records s'.disk.records := by
        rw [hdisk]
        exact Extends.captured r cursor typeFaults raw s.disk
      constructor
      · rw [length_active, hteachings, ← length_active]
        exact hs.cap
      · intro t ht
        rw [hteachings] at ht
        obtain ⟨r', hr', hby⟩ := hs.taught t ht
        obtain ⟨y, hy, hyby⟩ := Capture.extends (d := s.disk) hr' hext
        exact ⟨y, hy, hby.trans hyby.symm⟩
    | teach c x =>
      obtain ⟨hleaves, hdisk⟩ := call_leaves hst
      rw [hdisk]
      exact hleaves.sound hs

section
variable {u : Table Teaching.id} (h : Leaves L maxActive d c u)
include h

theorem Leaves.again (hagain : c.again L d) : u = d.teachings := by
  cases h with
  | same => rfl
  | more _ hnot => exact absurd hagain hnot
  | revoked => exact absurd hagain id

/-- Every teaching is there after a call, but for its status and its revocation. -/
theorem Leaves.marked (ht : t ∈ d.teachings.rows) :
    ∃ v ∈ u.rows, v = { t with status := v.status, forgotten := v.forgotten } ∧ (c.names ≠ some t.id → v = t) := by
  cases h with
  | same => exact ⟨t, ht, rfl, fun _ => rfl⟩
  | @more _ t' _ _ _ hfree =>
    have hne : t.id ≠ t'.id := fun he => by
      rw [← he, Table.mem_find ht] at hfree
      cases hfree
    exact ⟨t, Table.mem_put.2 (.inr ⟨ht, hne⟩), rfl, fun _ => rfl⟩
  | @revoked conversationId sourceMessageId now t' ht' =>
    by_cases hid : t.id = t'.id
    · obtain rfl := Table.ext_key ht ht' hid
      exact ⟨Teachings.revoked L sourceMessageId now t, Table.mem_put.2 (.inl rfl), rfl, fun hn => absurd rfl hn⟩
    · exact ⟨t, Table.mem_put.2 (.inr ⟨ht, hid⟩), rfl, fun _ => rfl⟩

/-- What was not there before a call has an id no teaching had, or is what the call names. -/
theorem Leaves.fresh (ht : t ∈ u.rows) (hnew : t ∉ d.teachings.rows) :
    (∀ v ∈ d.teachings.rows, v.id ≠ t.id) ∨ c.names = some t.id := by
  cases h with
  | same => exact absurd ht hnew
  | @more _ t' _ _ _ hfree =>
    rcases Table.mem_put.1 ht with rfl | ⟨ht, -⟩
    · refine .inl fun v hv he => ?_
      rw [← he, Table.mem_find hv] at hfree
      cases hfree
    · exact absurd ht hnew
  | revoked =>
    rcases Table.mem_put.1 ht with rfl | ⟨ht, -⟩
    · exact .inr rfl
    · exact absurd ht hnew

end

/-- The clock in the first minute of 1970, and the digest of the one message. -/
def minuteJs : Js :=
  { plainJs with
    parse := fun text => if text = "1970-01-01T00:00:00.000Z" then some 0 else none
    iso := fun t => "1970-01-01T00:00:" ++
      String.ofList [Nat.digitChar (t.toNat / 10000 % 6), Nat.digitChar (t.toNat / 1000 % 10)] ++ ".000Z"
    sha256 := fun _ => "62c66a7a5dd70c3146618063c344e531e6d4b59e379808443ce962b3abd63c5a" }

def minuteLoop : Loop := { smallLoop with js := minuteJs }

instance (q : Ask) (a : q.Answer) (w : World) : Decidable (minuteLoop.outside q a w) :=
  inferInstanceAs (Decidable True)

def taught (text : String) : Taught :=
  { agent := "agent", text, conversationId := "c", sourceMessageId := "m", releaseId := none, now := 0 }

/-- Two instructions in one second, and the first is taken back. -/
def twoCalls : List Teach :=
  [.remember 100 (taught "be brief"), .remember 100 (taught "be kind"),
    .forget "teach-19700101T000000Z-62c66a7a" "c" "m" 0]

/-- The calls, each run to its end. -/
def taughtAll : List Teach → World → Option World
  | [], s => some s
  | c :: cs, s =>
    (Prog.finishWith (Given.answer {}) 0 (c.program minuteLoop 2) s).bind fun x => taughtAll cs x.2

theorem taughtAll_run {cs : List Teach} (h : taughtAll cs s = some s') :
    ∃ ls, (teaching minuteLoop 2).Run s ls s' := by
  induction cs generalizing s with
  | nil =>
    obtain rfl := Option.some.inj h
    exact ⟨[], .nil s⟩
  | cons c cs ih =>
    obtain ⟨⟨x, s₁⟩, hc, hrest⟩ := Option.bind_eq_some_iff.1 h
    obtain ⟨ls, hls⟩ := ih hrest
    have hrun := Prog.finishWith_runs _ hc
    cases x with
    | ok o => exact ⟨_, .cons (show (teaching minuteLoop 2).step s (.teach c (.ok o)) s₁ from hrun) hls⟩
    | error e => exact ⟨_, .cons (show (teaching minuteLoop 2).step s (.teach c (.error e)) s₁ from hrun) hls⟩

end CarbonRuntime.Teachings
