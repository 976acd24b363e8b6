import CarbonRuntime.Runtime.Pass
import CarbonRuntime.Stream.Rules

/-!
# What a closing leaves open

`closeGroup` of a turn that completed completes the release of every record of the group
(runtime/loop.ts:1622-1640), but of a browser input whose delivery is uncertain.
-/

open CarbonRuntime.Core CarbonRuntime.Stream

namespace CarbonRuntime.Release

open Store Turn

variable {L : Loop} {s : World}

/-- The release of the record there is completed, or its input is given up as uncertain. -/
def Closed (i : Identity) (s : World) : Prop :=
  ∃ x, s.disk.records.find i = some x ∧ (x.openRelease = none ∨ x.uncertain = true)

/-- A write that closes its own record leaves every other as closed as it was. -/
theorem Closed.put {i : Identity} {new : MessageRecord} (h : i = new.id ∨ Closed i s)
    (hnew : new.openRelease = none ∨ new.uncertain = true) :
    Closed i ((Act.record new).apply s) := by
  rw [Closed, Act.apply, World.putRecord_disk]
  by_cases hi : i = new.id
  · exact ⟨new, by rw [hi]; exact Table.find_put_self _ _, hnew⟩
  · obtain ⟨x, hx, hclosed⟩ := h.resolve_left hi
    exact ⟨x, (Table.find_put_other _ _ hi).trans hx, hclosed⟩

/-- A write on the record `i` that closes it. -/
theorem rewrite_closed {i : Identity} {f : MessageRecord → MessageRecord}
    (hid : ∀ old, (f old).id = old.id)
    (hf : ∀ old, s.disk.records.find i = some old →
      (f old).openRelease = none ∨ (f old).uncertain = true) :
    Prog.wp (plain L) (rewrite L i f) (fun _ s' => (∀ j, j = i ∨ Closed j s → Closed j s') ∧
      ∃ old x, s'.disk.records.find i = some x ∧ x.openRelease = (f old).openRelease)
      (fun _ _ => True) s := by
  refine wp_rewrite i f trivial trivial (fun _ => trivial) fun old new s₁ hold hnew hs₁ _ =>
    ⟨trivial, fun _ => ?_⟩
  have hi : new.id = i := hnew.id.trans ((hid old).trans (Table.find_key hold))
  have hopen : new.openRelease = (f old).openRelease := by rw [hnew.eq]; rfl
  refine ⟨fun j hj => Closed.put ?_ ?_, old, new, ?_, hopen⟩
  · rw [hi]
    refine hj.imp id fun h => ?_
    rw [Closed, hs₁.records]
    exact h
  · rw [hopen, hnew.uncertain]
    exact hf old hold
  · rw [Act.apply, World.putRecord_disk, ← hi]
    exact Table.find_put_self _ _

/-- A closing leaves nothing open but what it leaves alone. -/
theorem closeCompleted_closed (records : List MessageRecord) (accepted : Option MessageRecord)
    (at_ : String) (parkedNoReply : Bool) (s : World) :
    Prog.wp (plain L) (closeCompleted L records accepted at_ parkedNoReply)
      (fun _ s' => ∀ one ∈ records, one.uncertain = false → Closed one.id s')
      (fun _ _ => True) s := by
  unfold closeCompleted
  refine Prog.wp_mono _ (Prog.wp_each (P := plain L) (X := fun _ _ => True)
    (J := fun rest s' => ∀ one ∈ records, one.uncertain = false → one ∈ rest ∨ Closed one.id s')
    _ (fun one rest s₁ h => ?_) records s fun one hone _ => .inl hone)
    (fun _ s' h one hone hu => (h one hone hu).resolve_left (by simp)) fun _ _ hx => hx
  have hnext : ∀ s₂, (∀ j, j = one.id ∨ Closed j s₁ → Closed j s₂) →
      ∀ x ∈ records, x.uncertain = false → x ∈ rest ∨ Closed x.id s₂ := by
    intro s₂ h₂ x hx hu
    rcases h x hx hu with hin | hclosed
    · rcases List.mem_cons.1 hin with rfl | hin
      · exact .inr (h₂ _ (.inl rfl))
      · exact .inl hin
    · exact .inr (h₂ _ (.inr hclosed))
  by_cases hu : one.uncertain = true
  · rw [if_pos hu]
    refine (Prog.wp_pure _).2 fun x hx hxu => (h x hx hxu).imp_left fun hin => ?_
    rcases List.mem_cons.1 hin with rfl | hin
    · rw [hu] at hxu
      cases hxu
    · exact hin
  rw [if_neg hu]
  split
  -- The reply leaves this input out.
  · unfold Calls.retainExcludedBrowserInput annotate
    rw [Prog.wp_bind]
    exact Prog.wp_mono _ (rewrite_closed (fun _ => rfl) fun _ _ => .inr rfl)
      (fun _ s₂ h₂ => (Prog.wp_pure _).2 (hnext s₂ h₂.1)) fun _ _ hx => hx
  · rw [Prog.wp_bind]
    refine Prog.wp_mono _ (rewrite_closed (i := one.id) (f := Store.completed at_) (fun _ => rfl)
      fun _ _ => .inl rfl) (fun _ s₂ h₂ => ?_) fun _ _ hx => hx
    obtain ⟨hclosed, old, x, hx, hnone⟩ := h₂
    split
    · unfold Store.read
      simp only [Prog.wp_bind, wp_refuse, wp_fetch, Prog.wp_pure]
      refine ⟨fun _ => ?_, fun _ => trivial⟩
      split
      · exact (wp_raise _).2 trivial
      · unfold Turn.discard annotate
        rw [Prog.wp_bind']
        refine Prog.wp_mono _ (rewrite_closed (fun _ => rfl) fun old' hold' => ?_)
          (fun _ s₃ h₃ => (Prog.wp_pure _).2 (hnext s₃ fun j hj =>
            h₃.1 j (hj.imp id fun hj => hclosed j (.inr hj)))) fun _ _ hx => hx
        rw [hx] at hold'
        cases hold'
        exact .inl hnone
    · exact (Prog.wp_pure _).2 (hnext s₂ hclosed)

/-- Where a release is closed after its turn completed, nothing of it is left open. -/
theorem closeGroup_closed {record : MessageRecord} {records : List MessageRecord}
    {unitId threadId R at_ : String} {result : TurnResult}
    (hres : result.status = .completed) (s : World) :
    Prog.wp (plain L) (closeGroup L record records unitId threadId R result at_)
      (fun _ s' => ∀ one ∈ records, one.uncertain = false → Closed one.id s')
      (fun _ _ => True) s := by
  simp only [closeGroup, hres, Prog.wp_bind]
  refine Prog.wp_mono _ (plain_any _ s) (fun reply s₁ _ => ?_) fun _ _ hx => hx
  refine Prog.wp_mono _ (plain_any _ s₁) (fun _ s₂ _ => ?_) fun _ _ hx => hx
  split
  · rw [Prog.wp_bind]
    exact Prog.wp_mono _ (plain_any _ s₂) (fun accepted s₃ _ =>
      closeCompleted_closed records accepted at_ _ s₃) fun _ _ hx => hx
  · exact closeCompleted_closed records none at_ _ s₂

end CarbonRuntime.Release
