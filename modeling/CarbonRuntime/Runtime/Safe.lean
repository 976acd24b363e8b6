import CarbonRuntime.Runtime.Moves
import CarbonRuntime.Stream.Rules

/-!
# Programs that keep to the moves

`Quiet s s'` is what a program that neither settles a delivery nor hands a group over
leaves as it was; `Close s s'` allows it to settle as well, and the teach check
to mark its release as checked. Both are frames (`Frame`): reflexive, transitive,
and above `Quiet`.

`Safe F s₀ p` is that from every state `F` leads to from `s₀`, `p` performs
moves only and stays in the frame. A fact of `s₀` that the frame keeps is there
at every point of `p`, so the rules for `bind`, loops and handlers carry no
assertions; `Safe.here` takes up a new `s₀` where a program has read the world.
-/

open CarbonRuntime.Core CarbonRuntime.Stream

namespace CarbonRuntime.Moves

open Store Tools

variable (L : Loop) (alone : Prop)

/-! ## Frames -/

/-- What a quiet program leaves of a record that was there. -/
structure Still (s : World) (r r' : MessageRecord) : Prop where
  delivery : r'.delivery = r.delivery
  release : L.browser = false → Owing s → r'.release = r.release

structure Quiet (s s' : World) : Prop where
  grows : Grows s.disk s'.disk
  still : alone → ∀ i r r', s.disk.records.find i = some r →
    s'.disk.records.find i = some r' → Still L s r r'
  ghost : s'.ghost = s.ghost
  recovering : s'.mem.recovering = s.mem.recovering
  group : L.browser = false → s'.mem.group = s.mem.group
  hist : s.hist <:+ s'.hist
  underway : underway s'.hist = underway s.hist

/-- The release, whatever its check has come to. -/
def Handed.opened (h : Handed) : Handed := { h with checked := false }

structure Close (s s' : World) : Prop where
  grows : Grows s.disk s'.disk
  ghost : s'.ghost = { s.ghost with handed := s'.ghost.handed }
  handed : s'.ghost.handed.map Handed.opened = s.ghost.handed.map Handed.opened
  recovering : s'.mem.recovering = s.mem.recovering
  group : L.browser = false → s'.mem.group = s.mem.group
  hist : s.hist <:+ s'.hist
  underway : underway s'.hist = underway s.hist

variable {L alone} {s₀ s s₁ s' : World}

theorem Still.refl (r : MessageRecord) : Still L s r r := ⟨rfl, fun _ _ => rfl⟩

/-- No record file is written. -/
theorem still_same (h : s'.disk.records = s.disk.records) (i : Identity) (r r' : MessageRecord)
    (hr : s.disk.records.find i = some r) (hr' : s'.disk.records.find i = some r') :
    Still L s r r' := by
  rw [h, hr] at hr'
  cases hr'
  exact .refl r

theorem Quiet.refl (s : World) : Quiet L alone s s :=
  ⟨.refl _, fun _ => still_same rfl, rfl, rfl, fun _ => rfl, List.suffix_refl _, rfl⟩

theorem Quiet.trans (h : Quiet L alone s s₁) (h' : Quiet L alone s₁ s') : Quiet L alone s s' where
  grows := h.grows.trans h'.grows
  still ha i r r' hr hr' := by
    obtain ⟨r₁, hr₁, _, _⟩ := h.grows.records i r hr
    have h₁ := h.still ha i r r₁ hr hr₁
    have h₂ := h'.still ha i r₁ r' hr₁ hr'
    refine ⟨h₂.delivery.trans h₁.delivery, fun hb ho => ?_⟩
    exact (h₂.release hb (by rwa [Owing, h.ghost, h.recovering])).trans (h₁.release hb ho)
  ghost := h'.ghost.trans h.ghost
  recovering := h'.recovering.trans h.recovering
  group hb := (h'.group hb).trans (h.group hb)
  hist := h.hist.trans h'.hist
  underway := h'.underway.trans h.underway

theorem Close.refl (s : World) : Close L s s :=
  ⟨.refl _, rfl, rfl, rfl, fun _ => rfl, List.suffix_refl _, rfl⟩

theorem Close.trans (h : Close L s s₁) (h' : Close L s₁ s') : Close L s s' where
  grows := h.grows.trans h'.grows
  ghost := by rw [h'.ghost, h.ghost]
  handed := h'.handed.trans h.handed
  recovering := h'.recovering.trans h.recovering
  group hb := (h'.group hb).trans (h.group hb)
  hist := h.hist.trans h'.hist
  underway := h'.underway.trans h.underway

theorem Quiet.close (h : Quiet L alone s s') : Close L s s' :=
  ⟨h.grows, by rw [h.ghost], by rw [h.ghost], h.recovering, h.group, h.hist, h.underway⟩

theorem Close.replying (h : Close L s s') : s'.ghost.replying = s.ghost.replying := by rw [h.ghost]

theorem Close.waiting (h : Close L s s') : s'.ghost.waiting = s.ghost.waiting := by rw [h.ghost]

theorem Close.sending (h : Close L s s') : s'.ghost.sending = s.ghost.sending := by rw [h.ghost]

theorem Close.owing (h : Close L s s') : Owing s' ↔ Owing s := by
  rw [Owing, Owing, h.recovering, h.ghost]

theorem Close.reissuing (h : Close L s s') : s'.ghost.reissuing = s.ghost.reissuing := by
  rw [h.ghost]

theorem Close.delivering (h : Close L s s') : s'.ghost.delivering = s.ghost.delivering := by
  rw [h.ghost]

theorem Close.ids (h : Close L s s') :
    s'.ghost.handed.map (·.ids) = s.ghost.handed.map (·.ids) := by
  have e := congrArg (Option.map (·.ids)) h.handed
  rw [Option.map_map, Option.map_map] at e
  exact e

/-- The release that was handed over is the one in hand still. -/
theorem Close.inHand {i : Identity} (h : Close L s s') (hi : InHand s i) : InHand s' i :=
  hi.congr h.ids

theorem Close.taken {i : Identity} (h : Close L s s') (hi : Taken L s i) : Taken L s' i :=
  hi.mono h.grows h.ids

theorem Quiet.inHand {i : Identity} (h : Quiet L alone s s') (hi : InHand s i) : InHand s' i :=
  h.close.inHand hi

theorem Quiet.taken {i : Identity} (h : Quiet L alone s s') (hi : Taken L s i) : Taken L s' i :=
  h.close.taken hi

/-- The history has gained an entry of such an event since `s`. -/
def Logged (s s' : World) (P : Event → Prop) : Prop :=
  ∃ new, s'.hist = new ++ s.hist ∧ ∃ e ∈ new, P e.event

theorem Logged.later {P : Event → Prop} (h : Logged s s₁ P) (hs : s₁.hist <:+ s'.hist) :
    Logged s s' P := by
  obtain ⟨new, hn, e, he, hP⟩ := h
  obtain ⟨more, hm⟩ := hs
  exact ⟨more ++ new, by rw [← hm, hn, List.append_assoc], e, List.mem_append_right _ he, hP⟩

theorem Logged.earlier {P : Event → Prop} (h : Logged s₁ s' P) (hs : s.hist <:+ s₁.hist) :
    Logged s s' P := by
  obtain ⟨new, hn, e, he, hP⟩ := h
  obtain ⟨more, hm⟩ := hs
  exact ⟨new ++ more, by rw [hn, ← hm, List.append_assoc], e, List.mem_append_left _ he, hP⟩

theorem Logged.mark {P : Event → Prop} {e : Event} (h : P e) :
    Logged s ((Act.mark e).apply s) P :=
  ⟨[⟨e, s.disk, s.clock⟩], rfl, _, List.mem_cons_self, h⟩

theorem Logged.mem {P : Event → Prop} (h : Logged s s' P) : ∃ e ∈ s'.hist, P e.event := by
  obtain ⟨new, hn, e, he, hP⟩ := h
  exact ⟨e, by rw [hn]; exact List.mem_append_left _ he, hP⟩

variable (L alone)

structure Frame where
  rel : World → World → Prop
  refl : ∀ s, rel s s
  trans : ∀ {s s₁ s'}, rel s s₁ → rel s₁ s' → rel s s'
  quiet : ∀ {s s'}, Quiet L alone s s' → rel s s'
  close : ∀ {s s'}, rel s s' → Close L s s'

def quiet : Frame L alone := ⟨Quiet L alone, .refl, .trans, id, Quiet.close⟩

def close : Frame L alone := ⟨Close L, .refl, .trans, Quiet.close, id⟩

variable {L alone}

def Safe (F : Frame L alone) (s₀ : World) {α : Type} (p : Program L α) : Prop :=
  s₀.ghost.replying = none → ∀ s, base L s → F.rel s₀ s →
    Prog.wp (moves L alone) p (fun _ => F.rel s₀) (fun _ => F.rel s₀) s

namespace Safe

variable {F : Frame L alone} {α β γ : Type}

/-! ## Rules -/

theorem here {p : Program L α} (h : Safe F s p) (hs : base L s) (hr : F.rel s₀ s)
    (h0 : s₀.ghost.replying = none) :
    Prog.wp (moves L alone) p (fun _ => F.rel s₀) (fun _ => F.rel s₀) s :=
  Prog.wp_mono p (h ((F.close hr).replying.trans h0) s hs (F.refl s))
    (fun _ _ h' => F.trans hr h') fun _ _ h' => F.trans hr h'

theorem mono {p : Program L α} (h : ∀ s, F.rel s₀ s → base L s → Safe F s p) : Safe F s₀ p :=
  fun h0 s hs hr => (h s hr hs).here hs hr h0

theorem lift {p : Program L α} (h : ∀ s, F.rel s₀ s → Safe (quiet L alone) s p) : Safe F s₀ p :=
  fun h0 s hs hr =>
    Prog.wp_mono p (h s hr ((F.close hr).replying.trans h0) s hs (.refl s))
      (fun _ _ h' => F.trans hr (F.quiet h')) fun _ _ h' => F.trans hr (F.quiet h')

theorem pure (a : α) : Safe F s₀ (Pure.pure a : Program L α) :=
  fun _ _ _ hr => (Prog.wp_pure a).2 hr

theorem raise (e : Err) : Safe F s₀ (Store.raise L e : Program L α) :=
  fun _ _ _ hr => (wp_raise e).2 hr

theorem refuse (faults : List Fault) : Safe F s₀ (Store.refuse L faults) := by
  intro _ s _ hr
  rw [wp_refuse]
  exact ⟨fun _ => hr, fun _ => hr⟩

theorem bind {p : Program L α} {f : α → Program L β} (hp : Safe F s₀ p)
    (hf : ∀ a, Safe F s₀ (f a)) : Safe F s₀ (p >>= f) := by
  intro h0 s hs hr
  rw [Prog.wp_bind]
  exact Prog.wp_mono_inv p hs (hp h0 s hs hr) (fun a s' hs' hr' => hf a h0 s' hs' hr')
    fun _ _ _ hr' => hr'

theorem handle {p : Program L α} {h : Err → Program L α} (hp : Safe F s₀ p)
    (hh : ∀ e, Safe F s₀ (h e)) : Safe F s₀ (Prog.handle (𝔖 := sig L) p h) := by
  intro h0 s hs hr
  rw [Prog.wp_handle]
  exact Prog.wp_mono_inv p hs (hp h0 s hs hr) (fun _ _ _ hr' => hr')
    fun e s' hs' hr' => hh e h0 s' hs' hr'

theorem andFinally {p : Program L α} {q : Program L Unit} (hp : Safe F s₀ p) (hq : Safe F s₀ q) :
    Safe F s₀ (Prog.andFinally (𝔖 := sig L) p q) := by
  intro h0 s hs hr
  rw [Prog.wp_andFinally]
  exact Prog.wp_mono_inv p hs (hp h0 s hs hr) (fun _ s' hs' hr' => hq h0 s' hs' hr')
    fun _ s' hs' hr' => hq h0 s' hs' hr'

theorem each {f : β → Program L Unit} {l : List β} (hf : ∀ b ∈ l, Safe F s₀ (f b)) :
    Safe F s₀ (Prog.each (𝔖 := sig L) f l) := by
  induction l with
  | nil => exact pure ()
  | cons b l ih =>
    exact bind (hf b (.head l)) fun _ => ih fun c hc => hf c (.tail b hc)

theorem fold {f : γ → β → Program L γ} {l : List β} (hf : ∀ c, ∀ b ∈ l, Safe F s₀ (f c b)) :
    ∀ c, Safe F s₀ (Prog.fold (𝔖 := sig L) f c l) := by
  induction l with
  | nil => exact pure
  | cons b l ih =>
    exact fun c => bind (hf c b (.head l)) fun c' => ih (fun d e he => hf d e (.tail b he)) c'

theorem cond {c : Prop} [Decidable c] {p q : Program L α} (hp : c → Safe F s₀ p)
    (hq : ¬c → Safe F s₀ q) : Safe F s₀ (if c then p else q) := by
  split
  · exact hp ‹_›
  · exact hq ‹_›

/-- A program that reads the world before it goes on. -/
theorem fetch {f : World → Program L α} (h : ∀ s, F.rel s₀ s → base L s → Safe F s (f s)) :
    Safe F s₀ (Store.fetch L >>= f) := by
  intro h0 s hs hr
  rw [Prog.wp_bind, wp_fetch]
  exact (h s hr hs).here hs hr h0

/-! ## Asking -/

theorem follows {q : Ask} (h : (moves L alone).rely q s s') : Follows alone s s' := by
  unfold moves at h
  dsimp only at h
  split at h
  · exact h
  · rw [h]; exact .refl s

theorem quiet_follows (h : Follows alone s s') : Quiet L alone s s' where
  grows := h.grows
  still ha := still_same (by rw [h.alone ha])
  ghost := h.ghost
  recovering := by rw [h.mem]
  group _ := by rw [h.mem]
  hist := ⟨[], by simp [h.hist]⟩
  underway := by rw [h.hist]

theorem quiet_after (q : Ask) (a : q.Answer) (s : World) : Quiet L alone s (q.after a s) where
  grows := by rw [after_disk]; exact .refl _
  still _ := still_same (by rw [after_disk])
  ghost := after_ghost q a s
  recovering := by rw [after_mem]
  group _ := by rw [after_mem]
  hist := ⟨[], by simp [after_hist]⟩
  underway := by rw [after_hist]

/-- Going on with an answer that fits the state it is given in. -/
theorem hear (q : Ask) {f : q.Answer → Program L α}
    (h : ∀ s a, F.rel s₀ s → q.fits L.browser a s → Safe F (q.after a s) (f a)) :
    Safe F s₀ (Store.ask L q >>= f) := by
  intro h0 s hs hr
  rw [Prog.wp_bind, wp_ask]
  intro s₁ h₁ a ha hi
  have hr₁ : F.rel s₀ s₁ := F.trans hr (F.quiet (quiet_follows (follows h₁)))
  exact (h s₁ a hr₁ ha).here hi (F.trans hr₁ (F.quiet (quiet_after q a s₁))) h0

theorem ask (q : Ask) : Safe F s₀ (Store.ask L q) := by
  intro _ s hs hr
  rw [wp_ask]
  intro s₁ h₁ a _ _
  exact F.trans hr (F.trans (F.quiet (quiet_follows (follows h₁))) (F.quiet (quiet_after q a s₁)))

theorem now : Safe F s₀ (Store.now L) := ask _

theorem isoNow : Safe F s₀ (Store.isoNow L) := (ask _).bind fun _ => pure _

/-- Going on with a listing. -/
theorem rebuild {f : List MessageRecord → Program L α}
    (h : ∀ s records, F.rel s₀ s → records.Perm s.disk.records.rows → Safe F s (f records)) :
    Safe F s₀ (Store.rebuild L >>= f) :=
  hear .listing fun s a hr ha => h s a hr ha

theorem recordsIn (conversationId : String) {f : List MessageRecord → Program L α}
    (h : ∀ s records, F.rel s₀ s → records.Perm (conversation s.disk conversationId) →
      Safe F s (f records)) : Safe F s₀ (Store.recordsIn L conversationId >>= f) := by
  intro h0 s hs hr
  simp only [Store.recordsIn, Prog.wp_bind, wp_refuse, Prog.wp_pure]
  refine ⟨fun _ => (wp_ask _).2 fun s₁ h₁ a ha hi => ?_, fun _ => hr⟩
  have hr₁ : F.rel s₀ s₁ := F.trans hr (F.quiet (quiet_follows (follows h₁)))
  exact (h s₁ _ hr₁ (List.Perm.filter _ ha)).here hi hr₁ h0

theorem read (i : Identity) {f : Option MessageRecord → Program L α}
    (h : ∀ s, F.rel s₀ s → Safe F s (f (s.disk.records.find i))) :
    Safe F s₀ (Store.read L i >>= f) := by
  intro h0 s hs hr
  simp only [Store.read, Prog.wp_bind, wp_refuse, wp_fetch, Prog.wp_pure]
  exact ⟨fun _ => (h s hr).here hs hr h0, fun _ => hr⟩

theorem readRequest (requestId : String) {f : Option ReplyRequest → Program L α}
    (h : ∀ s, F.rel s₀ s → Safe F s (f (s.disk.requests.find requestId))) :
    Safe F s₀ (Store.readRequest L requestId >>= f) := by
  intro h0 s hs hr
  simp only [Store.readRequest, Prog.wp_bind, wp_refuse, wp_fetch, Prog.wp_pure]
  exact ⟨fun _ => (h s hr).here hs hr h0, fun _ => hr⟩

theorem readThread (unitId : String) : Safe F s₀ (Store.readThread L unitId) :=
  (refuse _).bind fun _ => fetch fun _ _ _ => pure _

/-! ## Writing -/

theorem write {a : Act} (h : ∀ s, base L s → F.rel s₀ s → s.ghost.replying = none →
    Move L alone a s ∧ Quiet L alone s (a.apply s)) : Safe F s₀ (Store.write L a) := by
  intro h0 s hs hr
  obtain ⟨hm, hq⟩ := h s hs hr ((F.close hr).replying.trans h0)
  rw [wp_write]
  exact ⟨hm, fun _ => F.trans hr (F.quiet hq)⟩

theorem quiet_same (h : s'.disk.records = s.disk.records) (hq : s'.disk.requests = s.disk.requests)
    (hm : s'.mem = s.mem) (hg : s'.ghost = s.ghost) (hh : s'.hist = s.hist) :
    Quiet L alone s s' where
  grows := ⟨fun i r hr => ⟨r, by rw [h]; exact hr, .refl r, id⟩, fun R hR => by rw [hq]; exact hR⟩
  still _ := still_same h
  ghost := hg
  recovering := by rw [hm]
  group _ := by rw [hm]
  hist := ⟨[], by simp [hh]⟩
  underway := by rw [hh]

theorem quiet_seqOnly (h : SeqOnly s s') : Quiet L alone s s' :=
  quiet_same h.records h.requests h.mem h.ghost h.hist

theorem nextSeq : Safe F s₀ (Store.nextSeq L) :=
  fetch fun s _ _ => (write (a := .seq (s.disk.seq + 1)) fun _ _ _ _ =>
    ⟨trivial, quiet_same rfl rfl rfl rfl rfl⟩).bind fun _ => pure _

/-- A change of memory that touches none of what `base` and `Quiet` speak of. -/
structure MemKept (L : Loop) (m m' : Mem) : Prop where
  recovering : m'.recovering = m.recovering
  group : m'.group = m.group
  browserActive : L.browser = false → m.browserActive = none → m'.browserActive = none

theorem memMove {m : Mem} (hs : base L s) (h : MemKept L s.mem m) : MemMove L s m where
  recovering := .inl h.recovering
  group := ⟨fun r hr => hs.group r (by rwa [h.group] at hr), fun _ => h.group⟩
  browserActive hb := h.browserActive hb (hs.browserActive hb)

theorem quiet_mem {m : Mem} (h : MemKept L s.mem m) : Quiet L alone s ((Act.mem m).apply s) where
  grows := ⟨fun _ r hr => ⟨r, hr, .refl r, id⟩, fun _ hR => hR⟩
  still _ := still_same rfl
  ghost := rfl
  recovering := h.recovering
  group _ := h.group
  hist := List.suffix_refl _
  underway := rfl

theorem setMem {f : Mem → Mem} (hf : ∀ m, MemKept L m (f m)) :
    Safe F s₀ (Turn.setMem L f) := by
  intro h0 s hs hr
  simp only [Turn.setMem, Prog.wp_bind, wp_fetch, wp_write]
  exact ⟨memMove hs (hf s.mem), fun _ => F.trans hr (F.quiet (quiet_mem (hf s.mem)))⟩

/-- A program point that leaves every ghost as it is begins no delivery and no send. -/
theorem mark_underway {e : Event} (h : ∀ g : Ghost, g.mark e = g) (s : World) :
    underway ((Act.mark e).apply s).hist = underway s.hist := by
  cases e with
  | delivering records => cases congrArg Ghost.reissuing (h { reissuing := [""] })
  | send r => cases congrArg Ghost.sending (h {})
  | _ => rfl

theorem quiet_mark {e : Event} (h : ∀ g : Ghost, g.mark e = g) :
    Quiet L alone s ((Act.mark e).apply s) where
  grows := ⟨fun _ r hr => ⟨r, hr, .refl r, id⟩, fun _ hR => hR⟩
  still _ := still_same rfl
  ghost := h s.ghost
  recovering := rfl
  group _ := rfl
  hist := List.suffix_cons _ _
  underway := mark_underway h s

theorem mark {e : Event} (hg : ∀ g : Ghost, g.mark e = g)
    (h : ∀ s, base L s → F.rel s₀ s → MarkMove L alone s e) : Safe F s₀ (Store.mark L e) :=
  write fun s hs hr _ => ⟨h s hs hr, quiet_mark hg⟩

/-! ## Record files -/

theorem suffix_putRecord (s : World) (r : MessageRecord) : s.hist <:+ (s.putRecord r).hist := by
  rw [World.putRecord_hist]
  exact List.suffix_append _ _

theorem quiet_put {r : MessageRecord} (h : RecordMove L alone s r)
    (hghost : s.ghost.put (s.disk.records.find r.id) r = s.ghost)
    (hstill : ∀ old, s.disk.records.find r.id = some old → Still L s old r) :
    Quiet L alone s ((Act.record r).apply s) where
  grows := Move.grows (a := .record r) h
  still _ i x x' hx hx' := by
    rw [Act.apply, World.putRecord_disk] at hx'
    simp only [Table.find_put] at hx'
    split at hx'
    · rename_i hi
      cases hx'
      exact hstill x (hi ▸ hx)
    · rw [hx] at hx'
      cases hx'
      exact .refl x
  ghost := (World.putRecord_ghost s r).trans hghost
  recovering := by rw [Act.apply, World.putRecord_mem]
  group _ := by rw [Act.apply, World.putRecord_mem]
  hist := suffix_putRecord s r
  underway := World.putRecord_underway s r

/-- While a start's release ids are owed nothing is released and nothing completed. -/
theorem release_rewrite {old new : MessageRecord} (hs : base L s) (hw : Rewrite L alone s old new)
    (hb : L.browser = false) (ho : Owing s) : new.release = old.release := by
  have hnone := hs.owing ho
  cases hw with
  | noted h => exact h.release
  | parked _ _ h => exact h
  | parkedReply _ _ _ _ _ _ _ h => exact h
  | failed _ _ _ h => exact h
  | settled _ _ _ _ _ _ _ _ h => exact h
  | released _ _ hi =>
    rcases hi with ⟨g, hg, _⟩ | hb'
    · rw [hnone] at hg
      cases hg
    · simp [hb] at hb'
  | completed _ hi =>
    rcases hi with hb' | hno
    · simp [hb] at hb'
    · exact absurd ho hno

theorem quiet_rewrite {old r : MessageRecord} (hs : base L s)
    (hold : s.disk.records.find r.id = some old) (hk : Kept old r) (hw : Rewrite L alone s old r)
    (hdel : r.delivery = old.delivery) : Quiet L alone s ((Act.record r).apply s) :=
  quiet_put (.rewritten old hold hk hw) (by rw [hold, Ghost.put_old]) fun x hx => by
    rw [hold] at hx
    cases hx
    exact ⟨hdel, release_rewrite hs hw⟩

/-- The five functions that put something on a record that is there. -/
theorem rewrite {i : Identity} {f : MessageRecord → MessageRecord}
    (hk : ∀ old, Kept old (f old)) (hdel : ∀ old, (f old).delivery = old.delivery)
    (h : ∀ s old new, F.rel s₀ s → s.disk.records.find i = some old → Stamped (f old) new →
      Rewrite L alone s old new) : Safe F s₀ (Store.rewrite L i f) := by
  intro h0 s hs hr
  refine wp_rewrite i f hs trivial (fun e => hr) fun old new s' hold hnew hs' hi' => ?_
  have hr' : F.rel s₀ s' := F.trans hr (F.quiet (quiet_seqOnly hs'))
  rw [← hs'.records] at hold
  have hkept : Kept old new := (hk old).trans (by rw [Kept, hnew.eq])
  have hid : new.id = i := hkept.id.trans (Table.find_key hold)
  have hw := h s' old new hr' hold hnew
  subst hid
  have hd : new.delivery = old.delivery := by rw [hnew.eq]; exact hdel old
  exact ⟨.rewritten old hold hkept hw, fun _ => F.trans hr' (F.quiet (quiet_rewrite hi' hold hkept hw hd))⟩

theorem annotate (i : Identity) {fields : AdapterFields → AdapterFields}
    (h : ∀ f, (fields f).parkReason = f.parkReason) : Safe F s₀ (Store.annotate L i fields) :=
  rewrite (fun _ => rfl) (fun _ => rfl) fun _ old new _ _ hnew =>
    .noted ⟨by rw [hnew.eq]; rfl, by rw [hnew.eq]; rfl, by rw [hnew.eq]; rfl,
      hnew.parkReason.trans (h _)⟩

theorem parkFailed {i : Identity} {faults : List Fault} {reason : Option String}
    (h : Taken L s₀ i) : Safe F s₀ (Store.parkFailed L i faults reason) :=
  rewrite (fun _ => rfl) (fun _ => rfl) fun s old new hr hold hnew => by
    have ht := (F.close hr).taken h
    have hid := Table.find_key hold
    obtain ⟨r, hr', hdir, _⟩ := id ht
    rw [hold] at hr'
    cases hr'
    exact .parked hdir (by rw [hnew.eq]; rfl) (by rw [hnew.eq]; rfl) (by rw [hnew.eq]; rfl)
      (.inl (hid ▸ ht))

theorem setPermanentError {i : Identity} (h : Taken L s₀ i)
    (hrel : ∃ r, s₀.disk.records.find i = some r ∧ r.release.isSome = true) :
    Safe F s₀ (Store.setDisposition L i .permanentError) :=
  rewrite (fun _ => rfl) (fun _ => rfl) fun s old new hr hold hnew => by
    have hid := Table.find_key hold
    obtain ⟨r, hr', hrel⟩ := hrel
    obtain ⟨r', hr'', _, hrel'⟩ := (F.close hr).grows.records i r hr'
    rw [hold] at hr''
    cases hr''
    exact .failed (hid ▸ (F.close hr).taken h) (hrel' hrel) (by rw [hnew.eq]; rfl)
      (by rw [hnew.eq]; rfl) (by rw [hnew.eq]; rfl) hnew.parkReason

theorem completeRelease (i : Identity) (at_ : String) (h : L.browser = true ∨ ¬ Owing s₀) :
    Safe F s₀ (Store.completeRelease L i at_) :=
  rewrite (fun _ => rfl) (fun _ => rfl) fun s old new hr hold hnew =>
    .completed at_ (h.imp_right fun ho => by rwa [(F.close hr).owing]) (by rw [hnew.eq]; rfl) (by rw [hnew.eq]; rfl) (by rw [hnew.eq]; rfl)
      (hnew.parkReason.trans (by unfold completed; dsimp only; split <;> rfl))

theorem discard {p : Program L α} (hp : Safe F s₀ p) : Safe F s₀ (Turn.discard L p) :=
  hp.bind fun _ => pure _

/-! ## Capture -/

theorem advanceCursor (conversationId : String) (kind : CursorKind) (position : String) :
    Safe F s₀ (Store.advanceCursor L conversationId kind position) := by
  unfold Store.advanceCursor
  refine (refuse _).bind fun _ => fetch fun s _ _ => ?_
  have hw : ∀ c : Cursors, Safe F s (Store.write L (.cursor c)) := fun c =>
    write (a := .cursor c) fun _ _ _ _ => ⟨trivial, quiet_same rfl rfl rfl rfl rfl⟩
  dsimp only
  cases kind <;> dsimp only <;> split
  · exact pure _
  · exact hw _
  · exact pure _
  · exact hw _

theorem acceptBrowserInput (r : MessageRecord) : Safe F s₀ (Store.acceptBrowserInput L r) := by
  unfold Store.acceptBrowserInput
  split
  · intro h0 s hs hr
    simp only [Prog.wp_bind, wp_fetch, wp_write]
    have hk : MemKept L s.mem { s.mem with
        browserPending := s.mem.browserPending.filter (·.messageId ≠ r.messageId) ++ [r] } :=
      ⟨rfl, rfl, fun _ h => h⟩
    exact ⟨memMove hs hk, fun _ => F.trans hr (F.quiet (quiet_mem hk))⟩
  · exact pure _

theorem ghost_put_dead (g : Ghost) (old : Option MessageRecord) {r : MessageRecord}
    (h : r.status.any Status.live = false) : g.put old r = g := by
  simp [Ghost.put, h]

theorem kept_merge (old r : MessageRecord) : Kept old (mergeRecords old r) := rfl

theorem rewrite_merge (old r : MessageRecord) : Rewrite L alone s old (mergeRecords old r) :=
  .noted ⟨rfl, rfl, rfl, rfl⟩

theorem quiet_merge {old r : MessageRecord} (h : s.disk.records.find r.id = some old) :
    Move L alone (.record (mergeRecords old r)) s ∧
      Quiet L alone s ((Act.record (mergeRecords old r)).apply s) := by
  have hid : (mergeRecords old r).id = r.id := (kept_merge old r).id.trans (Table.find_key h)
  rw [← hid] at h
  have hm : RecordMove L alone s (mergeRecords old r) :=
    .rewritten old h (kept_merge old r) (rewrite_merge old r)
  refine ⟨hm, quiet_put hm (by rw [h, Ghost.put_old]) fun x hx => ?_⟩
  rw [h] at hx
  cases hx
  exact ⟨rfl, fun _ _ => rfl⟩

/-- The write of a capture whose record is not a reply that waits. -/
theorem captureWrite {r : MessageRecord} (seq : Nat) (hlive : r.status.any Status.live = false)
    (h : ∀ s, F.rel s₀ s → s.disk.records.find r.id = none → RecordMove L alone s r) :
    Safe F s₀ (Store.captureWrite L r seq) := by
  intro h0 s hs hr
  refine wp_captureWrite r seq (fun _ => hr) (fun old hold => ⟨fun _ => ?_, fun _ => hr⟩)
    fun hnone => ?_
  · have h : Move L alone (.record (mergeRecords old r)) s ∧ _ := quiet_merge hold
    obtain ⟨hm, hq⟩ := h
    exact ⟨hm, fun _ => F.trans hr (F.quiet hq)⟩
  · have hm := h s hr hnone
    have hq : Quiet L alone s ((Act.record r).apply s) :=
      quiet_put hm (ghost_put_dead _ _ hlive) fun old hold => by
        rw [hnone] at hold
        cases hold
    exact ⟨hm, fun _ => ⟨trivial, fun _ =>
      F.trans hr (F.quiet (hq.trans (quiet_same rfl rfl rfl rfl rfl)))⟩⟩

theorem appendRaw (i : Identity) (raw : Option String) : Safe F s₀ (Store.appendRaw L i raw) := by
  unfold Store.appendRaw
  split
  · exact write fun _ _ _ _ => ⟨trivial, quiet_same rfl rfl rfl rfl rfl⟩
  · exact pure _

theorem capture {r : MessageRecord} {cursor : Option (CursorKind × String)}
    {typeFaults : List Fault} {raw : Option String} (hlive : r.status.any Status.live = false)
    (h : ∀ s, F.rel s₀ s → s.disk.records.find r.id = none → RecordMove L alone s r) :
    Safe F s₀ (Store.capture L r cursor typeFaults none raw) := by
  unfold Store.capture
  refine (refuse _).bind fun _ => (refuse _).bind fun _ => nextSeq.bind fun seq => andFinally ?_ ?_
  · refine (appendRaw _ _).bind fun _ => (captureWrite seq hlive h).bind fun w => ?_
    dsimp only
    split
    · exact (acceptBrowserInput _).bind fun _ => pure _
    · exact pure _
  · split
    · exact advanceCursor _ _ _
    · exact pure _

theorem captureCandidate {c : Candidate} (h : c.fits L.browser) :
    Safe F s₀ (Store.capture L c.record c.cursor c.typeFaults none c.raw) :=
  capture (by simp [MessageRecord.status, h.2.1]) fun _ _ hnone => .captured hnone h

/-! ## The reply -/

/-- What the reply tool hands to Store.reply, besides what Store.reply checks. -/
structure Reply (L : Loop) (r : MessageRecord) (d : Delivery) (status : Status) (s : World) :
    Prop where
  release : r.release = none
  disposition : r.disposition = .captured
  status : status = replyStatus L r.conversationId
  messageId : r.messageId = replyMessageId r.conversationId d.requestId
  revision : Unmixed L s → L.browser = false → r.revision = 0
  fresh : Unmixed L s → L.browser = true → s.disk.records.find r.id = none

theorem replyStatus_live (conversationId : String) :
    (replyStatus L conversationId).live = true := by
  unfold Tools.replyStatus
  split <;> rfl

theorem unmixed_of_grows (h : Grows s.disk s'.disk) (hu : Unmixed L s') : Unmixed L s := by
  intro r hr hdir
  obtain ⟨r', hr', hk, _⟩ := h.records r.id r (Table.mem_find hr)
  have := hu r' (Table.find_mem hr') (hk.direction.trans hdir)
  rwa [hk.source] at this

theorem quiet_request {q : ReplyRequest} (hm : RequestMove L s q) (h0 : s.ghost.replying = none) :
    Quiet L alone s ((Act.request q).apply s) where
  grows := hm.grows
  still _ := still_same rfl
  ghost := by
    show { s.ghost with replying := none } = s.ghost
    rw [← h0]
  recovering := rfl
  group _ := rfl
  hist := List.suffix_refl _
  underway := rfl

section replyWrite
variable {r : MessageRecord} {d : Delivery} {status : Status}

/-- The state a reply that was captured as a new record leaves, before its fence. -/
def captured (s : World) (r : MessageRecord) (seq : Nat) : World :=
  (Act.index ⟨seq, r.id⟩).apply ((Act.record r).apply s)

theorem captured_ghost (seq : Nat) (hnone : s.disk.records.find r.id = none)
    (hlive : r.status.any Status.live = true) :
    (captured s r seq).ghost = { s.ghost with replying := some r.id } := by
  show ((Act.record r).apply s).ghost = _
  rw [Act.apply, World.putRecord_ghost, hnone, Ghost.put, if_pos (by simp [hlive])]

theorem captured_records (seq : Nat) :
    (captured s r seq).disk.records = s.disk.records.put r := by
  show ((Act.record r).apply s).disk.records = _
  rw [Act.apply, World.putRecord_disk]

theorem captured_requests (seq : Nat) : (captured s r seq).disk.requests = s.disk.requests := by
  show ((Act.record r).apply s).disk.requests = _
  rw [Act.apply, World.putRecord_disk]

/-- Captured as a new record and then fenced, a reply leaves nothing else behind. -/
theorem quiet_fenced {q : ReplyRequest} (seq : Nat) (hm : RecordMove L alone s r)
    (hnone : s.disk.records.find r.id = none) (hlive : r.status.any Status.live = true)
    (h0 : s.ghost.replying = none) (hq : RequestMove L (captured s r seq) q) :
    Quiet L alone s ((Act.request q).apply (captured s r seq)) where
  grows :=
    have h₁ := Move.grows (a := .record r) hm
    have h₂ : Grows ((Act.record r).apply s).disk (captured s r seq).disk :=
      ⟨fun i x hx => ⟨x, hx, .refl x, id⟩, fun R hR => hR⟩
    (h₁.trans h₂).trans hq.grows
  still _ i x x' hx hx' := by
    have hne : i ≠ r.id := by
      intro e
      rw [e, hnone] at hx
      cases hx
    rw [show ((Act.request q).apply (captured s r seq)).disk.records =
      (captured s r seq).disk.records from rfl, captured_records, Table.find_put_other _ _ hne,
      hx] at hx'
    cases hx'
    exact .refl x
  ghost := by
    show { (captured s r seq).ghost with replying := none } = s.ghost
    rw [captured_ghost seq hnone hlive, ← h0]
  recovering := by
    show ((Act.record r).apply s).mem.recovering = s.mem.recovering
    rw [Act.apply, World.putRecord_mem]
  group _ := by
    show ((Act.record r).apply s).mem.group = s.mem.group
    rw [Act.apply, World.putRecord_mem]
  hist := suffix_putRecord s r
  underway := World.putRecord_underway s r

theorem replyRecord_live (hx : Reply L r d status s) :
    (replyRecord r d status).status.any Status.live = true := by
  show status.live = true
  rw [hx.status]
  exact replyStatus_live _

/-- The fence of a reply that was merged into the record there. -/
theorem quiet_refence {s'' : World} (hx : Reply L r d status s)
    (hf : ∀ q, s.disk.requests.find d.requestId = some q → q.status = .failed)
    (h0 : s.ghost.replying = none) (hsome : ∃ x, s.disk.records.find r.id = some x)
    (hq : Quiet L alone s s'') (hreqs : s''.disk.requests = s.disk.requests) :
    RequestMove L s'' (replyRequest r d status) ∧
      Quiet L alone s ((Act.request (replyRequest r d status)).apply s'') := by
  have h0'' : s''.ghost.replying = none := by rw [hq.ghost]; exact h0
  obtain ⟨x, hsome⟩ := hsome
  obtain ⟨x'', hx'', _⟩ := hq.grows.records _ x hsome
  have hm : RequestMove L s'' (replyRequest r d status) := by
    refine .replied x'' (by rw [hreqs]; exact hf) hx.status hx.messageId
      (fun hu hb => hx.revision (unmixed_of_grows hq.grows hu) hb) hx'' (.inr ⟨h0'', fun hu => ?_⟩)
    by_contra hb
    rw [Bool.not_eq_false] at hb
    rw [hx.fresh (unmixed_of_grows hq.grows hu) hb] at hsome
    cases hsome
  exact ⟨hm, hq.trans (quiet_request hm h0'')⟩

/-- The record and the fence of a reply whose record is new. -/
theorem moves_fenced (hx : Reply L r d status s) (hdir : r.direction = .outbound)
    (hf : ∀ q, s.disk.requests.find d.requestId = some q → q.status = .failed)
    (h0 : s.ghost.replying = none) (hnone : s.disk.records.find r.id = none) (seq : Nat) :
    RecordMove L alone s (replyRecord r d status) ∧
      RequestMove L (captured s (replyRecord r d status) seq) (replyRequest r d status) := by
  have hm : RecordMove L alone s (replyRecord r d status) :=
    .replied { d with status } hnone hdir hx.release hx.disposition rfl hx.status hx.messageId
      hx.revision hf h0
  refine ⟨hm, ?_⟩
  refine .replied (replyRecord r d status) ?_ hx.status hx.messageId (fun hu hb => ?_) ?_
    (.inl ⟨?_, hdir, rfl, rfl⟩)
  · rw [captured_requests]
    exact hf
  · exact hx.revision (unmixed_of_grows (Move.grows (a := .record _) hm) hu) hb
  · rw [captured_records]
    exact Table.find_put_self _ _
  · rw [captured_ghost (r := replyRecord r d status) seq hnone (replyRecord_live hx)]
    rfl

theorem replyWrite_wp (hx : Reply L r d status s) (hdir : r.direction = .outbound)
    (hf : ∀ q, s.disk.requests.find d.requestId = some q → q.status = .failed)
    (h0 : s.ghost.replying = none) :
    Prog.wp (moves L alone) (Store.replyWrite L r d status) (fun _ => Quiet L alone s)
      (fun _ => Quiet L alone s) s := by
  simp only [Store.replyWrite, Prog.wp_bind, wp_write, Prog.wp_pure]
  refine wp_captureOutbound (replyRecord r d status) hdir trivial
    (fun e s' hs' => quiet_seqOnly hs') (fun old s' hold hs' _ => ?_)
    fun seq s' hnone hs' _ => ?_
  -- The record is there: the reply is merged into it and fenced all the same.
  · have hq' : Quiet L alone s s' := quiet_seqOnly hs'
    have hold' := hold
    rw [← hs'.records] at hold'
    have h : Move L alone (.record (mergeRecords old (replyRecord r d status))) s' ∧ _ :=
      quiet_merge hold'
    obtain ⟨hm, hq⟩ := h
    refine ⟨fun _ => ⟨hm, fun _ => ?_⟩, fun _ => ?_⟩
    · have hreqs : ((Act.record (mergeRecords old (replyRecord r d status))).apply s').disk.requests =
          s.disk.requests := by
        rw [Act.apply, World.putRecord_disk]
        exact hs'.requests
      obtain ⟨h₁, h₂⟩ := quiet_refence hx hf h0 ⟨old, hold⟩ (hq'.trans hq) hreqs
      exact ⟨h₁, fun _ => h₂⟩
    · obtain ⟨h₁, h₂⟩ := quiet_refence hx hf h0 ⟨old, hold⟩ hq' hs'.requests
      exact ⟨h₁, fun _ => h₂⟩
  -- The record is new: between it and its fence the reply is captured and not fenced.
  · have hq' : Quiet L alone s s' := quiet_seqOnly hs'
    have h0' : s'.ghost.replying = none := by rw [hs'.ghost]; exact h0
    have hx' : Reply L r d status s' :=
      { hx with
        revision := fun hu hb => hx.revision (unmixed_of_grows hq'.grows hu) hb
        fresh := fun hu hb => by
          rw [hs'.records]
          exact hx.fresh (unmixed_of_grows hq'.grows hu) hb }
    rw [← hs'.records] at hnone
    have h : RecordMove L alone s' (replyRecord r d status) ∧ _ :=
      moves_fenced hx' hdir (by rw [hs'.requests]; exact hf) h0' hnone seq
    obtain ⟨hm, hq⟩ := h
    exact ⟨hm, fun _ => ⟨trivial, fun _ => ⟨hq, fun _ =>
      hq'.trans (quiet_fenced seq hm hnone (replyRecord_live hx) h0' hq)⟩⟩⟩

end replyWrite

end Safe

end CarbonRuntime.Moves
