import CarbonRuntime.Core.Prog
import Mathlib.Logic.Relation

/-!
# A program beside a party it asks

`Prog.Steps` takes a question to be answered in any valid way. A `Peer` is a party with a
state of its own: it answers the questions it `serves` from that state, and it moves by
itself whatever the program does. `Beside.Steps` interleaves the two in every way and keeps
what was served, in order, each with the party's state when it was asked and when it had
answered.

`Ends` is a run to its end; `Ends.bind_inv` and `Ends.handle_inv` take it apart where the
program is put together. A program is `Aloof` if it asks none of the questions `B` and keeps
some `J` of its own state, whatever it hears: so does every run of it. `Apart` is the class
of the programs that are, and is inferred along the way they are put together. A program
is `Firm` if what is refused to it ends it.

`playBeside` runs a program against given answers and given moves; `playBeside_steps` says
that it is a run.
-/
namespace CarbonRuntime.Core

structure Peer (𝔖 : Sig) where
  St : Type
  serves : 𝔖.Q → Bool
  answers : (q : 𝔖.Q) → St → 𝔖.A q → St → Prop
  moves : St → St → Prop

/-- A question the party answered. -/
structure Peer.Served {𝔖 : Sig} (P : Peer 𝔖) where
  q : 𝔖.Q
  before : P.St
  answer : 𝔖.A q
  after : P.St

namespace Beside

variable {𝔖 : Sig} {α β γ : Type} (P : Peer 𝔖)

structure Config (α : Type) where
  prog : Prog 𝔖 α
  st : 𝔖.S
  peer : P.St

inductive Step : Config P α → List P.Served → Config P α → Prop
  | read (k : 𝔖.S → Prog 𝔖 α) (s : 𝔖.S) (σ : P.St) : Step ⟨.read k, s, σ⟩ [] ⟨k s, s, σ⟩
  | act (w : 𝔖.W) (k : Prog 𝔖 α) (s : 𝔖.S) (σ : P.St) :
      Step ⟨.act w k, s, σ⟩ [] ⟨k, 𝔖.apply w s, σ⟩
  | hear {q : 𝔖.Q} (k : 𝔖.A q → Prog 𝔖 α) {a : 𝔖.A q} {s : 𝔖.S} (σ : P.St) :
      P.serves q = false → 𝔖.valid q a s → Step ⟨.hear q k, s, σ⟩ [] ⟨k a, 𝔖.after q a s, σ⟩
  | serve {q : 𝔖.Q} (k : 𝔖.A q → Prog 𝔖 α) {a : 𝔖.A q} {s : 𝔖.S} {σ σ₁ : P.St} :
      P.serves q = true → 𝔖.valid q a s → P.answers q σ a σ₁ →
      Step ⟨.hear q k, s, σ⟩ [⟨q, σ, a, σ₁⟩] ⟨k a, 𝔖.after q a s, σ₁⟩
  | move (p : Prog 𝔖 α) (s : 𝔖.S) {σ σ₁ : P.St} : P.moves σ σ₁ → Step ⟨p, s, σ⟩ [] ⟨p, s, σ₁⟩

inductive Steps : Config P α → List P.Served → Config P α → Prop
  | refl (c : Config P α) : Steps c [] c
  | head {c c₁ c' : Config P α} {e t : List P.Served} :
      Step P c e c₁ → Steps c₁ t c' → Steps c (e ++ t) c'

variable {P} {s s' : 𝔖.S} {σ σ' : P.St} {t : List P.Served}

/-- What happens beside the party may happen. -/
theorem Steps.steps {c c' : Config P α} (h : Steps P c t c') :
    Prog.Steps (c.prog, c.st) (c'.prog, c'.st) := by
  induction h with
  | refl => exact .refl _
  | head hs _ ih =>
    cases hs with
    | read k s => exact .head (.read k s) ih
    | act w k s => exact .head (.act w k s) ih
    | hear k _ _ hv => exact .head (.hear _ k _ _ hv) ih
    | serve k _ hv _ => exact .head (.hear _ k _ _ hv) ih
    | move => exact ih

theorem Steps.trans {c c₁ c' : Config P α} {t' : List P.Served} (h : Steps P c t c₁)
    (h' : Steps P c₁ t' c') : Steps P c (t ++ t') c' := by
  induction h with
  | refl => exact h'
  | head hs _ ih =>
    rw [List.append_assoc]
    exact .head hs (ih h')

theorem Steps.move {p : Prog 𝔖 α} {σ₁ : P.St} {c : Config P α} (hm : P.moves σ σ₁)
    (h : Steps P ⟨p, s, σ₁⟩ t c) : Steps P ⟨p, s, σ⟩ t c := .head (.move p s hm) h

/-! ## Taking a run apart -/

/-- What follows a program: a continuation or a handler. -/
structure Frame (𝔖 : Sig) (α β : Type) where
  fill : Prog 𝔖 α → Prog 𝔖 β
  read : ∀ k, fill (.read k) = .read fun s => fill (k s)
  act : ∀ w k, fill (.act w k) = .act w (fill k)
  hear : ∀ q k, fill (.hear q k) = .hear q fun a => fill (k a)

/-- A framed program runs as the program itself. -/
theorem Steps.frame (F : Frame 𝔖 α β) {c c' : Config P α} (h : Steps P c t c') :
    Steps P ⟨F.fill c.prog, c.st, c.peer⟩ t ⟨F.fill c'.prog, c'.st, c'.peer⟩ := by
  induction h with
  | refl => exact .refl _
  | head hs _ ih =>
    refine .head ?_ ih
    cases hs with
    | read k s => exact F.read k ▸ .read _ s _
    | act w k s => exact F.act w k ▸ .act w _ s _
    | hear k _ hq hv => exact F.hear _ k ▸ .hear _ _ hq hv
    | serve k hq hv ha => exact F.hear _ k ▸ .serve _ hq hv ha
    | move p s hm => exact .move _ s hm

/-- How far a run of a framed program takes the program itself. -/
theorem Steps.frame_inv (F : Frame 𝔖 α β) {c : Config P β} {c' : Config P β} (h : Steps P c t c') :
    ∀ {p : Prog 𝔖 α}, c.prog = F.fill p →
      (∃ p', c'.prog = F.fill p' ∧ Steps P ⟨p, c.st, c.peer⟩ t ⟨p', c'.st, c'.peer⟩) ∨
      ∃ r : Prog.Result 𝔖 α, ∃ s₁ σ₁ t₁ t₂, Steps P ⟨p, c.st, c.peer⟩ t₁ ⟨r.prog, s₁, σ₁⟩ ∧
        Steps P ⟨F.fill r.prog, s₁, σ₁⟩ t₂ c' ∧ t = t₁ ++ t₂ := by
  induction h with
  | refl c => exact fun hp => .inl ⟨_, hp, .refl _⟩
  | @head c c₁ c' e t hs hr ih =>
    intro p hp
    -- A program that has ended runs no further: the rest is the frame's.
    have hended : ∀ r : Prog.Result 𝔖 α, p = r.prog →
        ∃ r : Prog.Result 𝔖 α, ∃ s₁ σ₁ t₁ t₂, Steps P ⟨p, c.st, c.peer⟩ t₁ ⟨r.prog, s₁, σ₁⟩ ∧
          Steps P ⟨F.fill r.prog, s₁, σ₁⟩ t₂ c' ∧ e ++ t = t₁ ++ t₂ := by
      intro r hr'
      subst hr'
      refine ⟨r, c.st, c.peer, [], e ++ t, .refl _, ?_, rfl⟩
      rw [← hp]
      exact .head hs hr
    have hgo : ∀ p₁, Step P ⟨p, c.st, c.peer⟩ e ⟨p₁, c₁.st, c₁.peer⟩ → c₁.prog = F.fill p₁ →
        (∃ p', c'.prog = F.fill p' ∧ Steps P ⟨p, c.st, c.peer⟩ (e ++ t) ⟨p', c'.st, c'.peer⟩) ∨
        ∃ r : Prog.Result 𝔖 α, ∃ s₁ σ₁ t₁ t₂, Steps P ⟨p, c.st, c.peer⟩ t₁ ⟨r.prog, s₁, σ₁⟩ ∧
          Steps P ⟨F.fill r.prog, s₁, σ₁⟩ t₂ c' ∧ e ++ t = t₁ ++ t₂ := by
      intro p₁ hstep hp₁
      rcases ih hp₁ with ⟨p', hp', h'⟩ | ⟨r, s₁, σ₁, t₁, t₂, h₁, h₂, ht⟩
      · exact .inl ⟨p', hp', .head hstep h'⟩
      · exact .inr ⟨r, s₁, σ₁, e ++ t₁, t₂, .head hstep h₁, h₂, by rw [ht, List.append_assoc]⟩
    cases hs with
    | move q s hm => exact hgo p (.move _ _ hm) hp
    | read k s σ =>
      cases p with
      | ret a => exact .inr (hended (.ok a) rfl)
      | throw e => exact .inr (hended (.error e) rfl)
      | read k' =>
        rw [F.read] at hp
        cases hp
        exact hgo _ (.read _ _ _) rfl
      | act w k' => rw [F.act] at hp; cases hp
      | hear q k' => rw [F.hear] at hp; cases hp
    | act w k s σ =>
      cases p with
      | ret a => exact .inr (hended (.ok a) rfl)
      | throw e => exact .inr (hended (.error e) rfl)
      | read k' => rw [F.read] at hp; cases hp
      | act w' k' =>
        rw [F.act] at hp
        cases hp
        exact hgo _ (.act _ _ _ _) rfl
      | hear q k' => rw [F.hear] at hp; cases hp
    | hear k σ hq hv =>
      cases p with
      | ret a => exact .inr (hended (.ok a) rfl)
      | throw e => exact .inr (hended (.error e) rfl)
      | read k' => rw [F.read] at hp; cases hp
      | act w' k' => rw [F.act] at hp; cases hp
      | hear q k' =>
        rw [F.hear] at hp
        cases hp
        exact hgo _ (.hear _ _ hq hv) rfl
    | serve k hq hv ha =>
      cases p with
      | ret a => exact .inr (hended (.ok a) rfl)
      | throw e => exact .inr (hended (.error e) rfl)
      | read k' => rw [F.read] at hp; cases hp
      | act w' k' => rw [F.act] at hp; cases hp
      | hear q k' =>
        rw [F.hear] at hp
        cases hp
        exact hgo _ (.serve _ hq hv ha) rfl

/-- A program that has ended runs no further, and the party moves on. -/
theorem Steps.ended {r : Prog.Result 𝔖 α} {c : Config P α} {c' : Config P α}
    (h : Steps P c t c') : c.prog = r.prog → c'.prog = r.prog ∧ c'.st = c.st ∧ t = [] ∧
      ∀ {γ : Type} (p : Prog 𝔖 γ), Steps P ⟨p, c.st, c.peer⟩ [] ⟨p, c.st, c'.peer⟩ := by
  induction h with
  | refl => exact fun hp => ⟨hp, rfl, rfl, fun p => .refl _⟩
  | head hs _ ih =>
    intro hp
    cases hs with
    | move q s hm =>
      obtain ⟨h₁, h₂, h₃, h₄⟩ := ih hp
      refine ⟨h₁, h₂, h₃, fun p => ?_⟩
      have hp := h₄ p
      exact .move hm hp
    | read | act | hear | serve => cases r <;> cases hp

/-- A whole run beside the party. -/
def Ends (P : Peer 𝔖) (p : Prog 𝔖 α) (s : 𝔖.S) (σ : P.St) (t : List P.Served)
    (r : Prog.Result 𝔖 α) (s' : 𝔖.S) (σ' : P.St) : Prop := Steps P ⟨p, s, σ⟩ t ⟨r.prog, s', σ'⟩

theorem Ends.runs {p : Prog 𝔖 α} {r : Prog.Result 𝔖 α} (h : Ends P p s σ t r s' σ') :
    Prog.Runs p s r s' := Steps.steps h

theorem Ends.ret_inv {a : α} {r : Prog.Result 𝔖 α} (h : Ends P (.ret a) s σ t r s' σ') :
    r = .ok a ∧ s' = s ∧ t = [] := by
  obtain ⟨hr, hs, ht, _⟩ := Steps.ended (r := .ok a) h rfl
  refine ⟨?_, hs, ht⟩
  cases r with
  | ok b =>
    cases hr
    rfl
  | error e => cases hr

theorem Ends.throw_inv {e : 𝔖.E} {r : Prog.Result 𝔖 α} (h : Ends P (.throw e) s σ t r s' σ') :
    r = .error e ∧ s' = s ∧ t = [] := by
  obtain ⟨hr, hs, ht, _⟩ := Steps.ended (r := .error e) h rfl
  refine ⟨?_, hs, ht⟩
  cases r with
  | ok b => cases hr
  | error e' =>
    cases hr
    rfl

/-- What follows a program. -/
def Frame.bind (f : α → Prog 𝔖 β) : Frame 𝔖 α β :=
  ⟨fun p => p.bind f, fun _ => rfl, fun _ _ => rfl, fun _ _ => rfl⟩

theorem Ends.bind {p : Prog 𝔖 α} {f : α → Prog 𝔖 β} {a : α} {s₁ : 𝔖.S} {σ₁ : P.St}
    {t₁ t₂ : List P.Served} {r : Prog.Result 𝔖 β} (hp : Ends P p s σ t₁ (.ok a) s₁ σ₁)
    (hf : Ends P (f a) s₁ σ₁ t₂ r s' σ') : Ends P (p.bind f) s σ (t₁ ++ t₂) r s' σ' :=
  Steps.trans (Steps.frame (.bind f) hp) hf

theorem Ends.bind_error {p : Prog 𝔖 α} {f : α → Prog 𝔖 β} {e : 𝔖.E}
    (hp : Ends P p s σ t (.error e) s' σ') : Ends P (p.bind f) s σ t (.error e) s' σ' :=
  Steps.frame (.bind f) hp

/-- A run of `p` and then of `f` on what it returns, or of `p` alone where it raises. -/
theorem Ends.bind_inv {p : Prog 𝔖 α} {f : α → Prog 𝔖 β} {r : Prog.Result 𝔖 β}
    (h : Ends P (p.bind f) s σ t r s' σ') :
    (∃ a s₁ σ₁ t₁ t₂, Ends P p s σ t₁ (.ok a) s₁ σ₁ ∧ Ends P (f a) s₁ σ₁ t₂ r s' σ' ∧
      t = t₁ ++ t₂) ∨
    ∃ e, r = .error e ∧ Ends P p s σ t (.error e) s' σ' := by
  rcases Steps.frame_inv (.bind f) h rfl with ⟨p', hp', h'⟩ | ⟨r₁, s₁, σ₁, t₁, t₂, h₁, h₂, rfl⟩
  · cases p' with
    | ret a =>
      refine .inl ⟨a, s', σ', t, [], h', ?_, (List.append_nil t).symm⟩
      rw [Ends, show f a = r.prog from hp'.symm]
      exact .refl _
    | throw e =>
      cases r with
      | ok b => cases hp'
      | error e' =>
        cases hp'
        exact .inr ⟨_, rfl, h'⟩
    | read k => cases r <;> cases hp'
    | act w k => cases r <;> cases hp'
    | hear q k => cases r <;> cases hp'
  · cases r₁ with
    | ok a => exact .inl ⟨a, s₁, σ₁, t₁, t₂, h₁, h₂, rfl⟩
    | error e =>
      obtain ⟨hr, hs, ht, hmoves⟩ := Steps.ended (r := .error e) h₂ rfl
      obtain ⟨rfl, -, -⟩ := Ends.throw_inv h₂
      refine .inr ⟨e, rfl, ?_⟩
      have hmove := hmoves (Prog.throw e : Prog 𝔖 α)
      simp only at hs
      rw [Ends, ht, hs]
      exact h₁.trans hmove

/-- A run of `p`, and of the handler on what it raises. -/
theorem Ends.handle_inv {p : Prog 𝔖 α} {f : 𝔖.E → Prog 𝔖 α} {r : Prog.Result 𝔖 α}
    (h : Ends P (p.handle f) s σ t r s' σ') :
    (∃ e s₁ σ₁ t₁ t₂, Ends P p s σ t₁ (.error e) s₁ σ₁ ∧ Ends P (f e) s₁ σ₁ t₂ r s' σ' ∧
      t = t₁ ++ t₂) ∨
    ∃ a, r = .ok a ∧ Ends P p s σ t (.ok a) s' σ' := by
  let F : Frame 𝔖 α α := ⟨fun p => p.handle f, fun _ => rfl, fun _ _ => rfl, fun _ _ => rfl⟩
  rcases Steps.frame_inv F h rfl with ⟨p', hp', h'⟩ | ⟨r₁, s₁, σ₁, t₁, t₂, h₁, h₂, rfl⟩
  · cases p' with
    | throw e =>
      refine .inl ⟨e, s', σ', t, [], h', ?_, (List.append_nil t).symm⟩
      rw [Ends, show f e = r.prog from hp'.symm]
      exact .refl _
    | ret a =>
      cases r with
      | error b => cases hp'
      | ok a' =>
        cases hp'
        exact .inr ⟨_, rfl, h'⟩
    | read k => cases r <;> cases hp'
    | act w k => cases r <;> cases hp'
    | hear q k => cases r <;> cases hp'
  · cases r₁ with
    | error e => exact .inl ⟨e, s₁, σ₁, t₁, t₂, h₁, h₂, rfl⟩
    | ok a =>
      obtain ⟨hr, hs, ht, hmoves⟩ := Steps.ended (r := .ok a) h₂ rfl
      obtain ⟨rfl, -, -⟩ := Ends.ret_inv h₂
      refine .inr ⟨a, rfl, ?_⟩
      have hmove := hmoves (Prog.ret a : Prog 𝔖 α)
      simp only at hs
      rw [Ends, ht, hs]
      exact h₁.trans hmove

/-- What was served the party answered. -/
theorem Steps.served {c c' : Config P α} (h : Steps P c t c') :
    ∀ e ∈ t, P.serves e.q = true ∧ P.answers e.q e.before e.answer e.after := by
  induction h with
  | refl => exact fun e he => by cases he
  | head hs _ ih =>
    intro e he
    rcases List.mem_append.1 he with he | he
    · cases hs with
      | serve _ hq _ ha =>
        rw [List.mem_singleton] at he
        subst he
        exact ⟨hq, ha⟩
      | _ => cases he
    · exact ih e he

/-- What the party's moves and answers keep of its state holds whenever it is asked. -/
theorem Steps.keeps {I : P.St → Prop} (hmove : ∀ σ σ', I σ → P.moves σ σ' → I σ')
    (hserve : ∀ q σ a σ', I σ → P.answers q σ a σ' → I σ') {c c' : Config P α}
    (h : Steps P c t c') : I c.peer → I c'.peer ∧ ∀ e ∈ t, I e.before := by
  induction h with
  | refl => exact fun hI => ⟨hI, fun e he => by cases he⟩
  | @head c c₁ c' e t hs _ ih =>
    intro hI
    have hstep : I c₁.peer ∧ ∀ x ∈ e, I x.before := by
      cases hs with
      | read | act | hear => exact ⟨hI, fun x hx => by cases hx⟩
      | serve _ _ _ ha =>
        refine ⟨hserve _ _ _ _ hI ha, fun x hx => ?_⟩
        rw [List.mem_singleton] at hx
        subst hx
        exact hI
      | move _ _ hm => exact ⟨hmove _ _ hI hm, fun x hx => by cases hx⟩
    obtain ⟨hI', ht⟩ := ih hstep.1
    exact ⟨hI', fun x hx => (List.mem_append.1 hx).elim (hstep.2 x) (ht x)⟩

theorem Ends.ask_inv {q : 𝔖.Q} {r : Prog.Result 𝔖 (𝔖.A q)} (hq : P.serves q = true)
    (h : Ends P (Prog.ask q) s σ t r s' σ') :
    ∃ a σ₀ σ₁, r = .ok a ∧ s' = 𝔖.after q a s ∧ t = [⟨q, σ₀, a, σ₁⟩] := by
  have hsteps : ∀ {c c' : Config P (𝔖.A q)} {t : List P.Served}, Steps P c t c' →
      c.prog = .hear q .ret → c'.prog = r.prog →
      ∃ a σ₀ σ₁, r = .ok a ∧ c'.st = 𝔖.after q a c.st ∧ t = [⟨q, σ₀, a, σ₁⟩] := by
    intro c c' t h
    induction h with
    | refl =>
      intro hc hr
      rw [hr] at hc
      cases r <;> cases hc
    | head hs hrest ih =>
      intro hc hr
      cases hs with
      | read | act => cases hc
      | hear _ _ hno =>
        cases hc
        rw [hno] at hq
        cases hq
      | serve k _ _ _ =>
        cases hc
        obtain ⟨hend, hst, ht, _⟩ := Steps.ended (r := .ok _) hrest rfl
        rw [hend] at hr
        refine ⟨_, _, _, ?_, hst, by rw [ht]; rfl⟩
        cases r with
        | ok b =>
          cases hr
          rfl
        | error e => cases hr
      | move => exact ih hc hr
  exact hsteps h rfl rfl

theorem Ends.read_inv {k : 𝔖.S → Prog 𝔖 α} {r : Prog.Result 𝔖 α}
    (h : Ends P (Prog.read k) s σ t r s' σ') : Ends P (k s) s σ t r s' σ' := by
  have hsteps : ∀ {c c' : Config P α} {t : List P.Served}, Steps P c t c' → c.prog = .read k →
      c'.prog = r.prog → Steps P ⟨k c.st, c.st, c.peer⟩ t c' := by
    intro c c' t h
    induction h with
    | refl =>
      intro hc hr
      rw [hr] at hc
      cases r <;> cases hc
    | head hs hrest ih =>
      intro hc hr
      cases hs with
      | read =>
        cases hc
        exact hrest
      | act | hear | serve => cases hc
      | move _ _ hm => exact .move hm (ih hc hr)
  exact hsteps h rfl rfl

/-! ## What a refusal comes to -/

/-- What is refused to the program ends it. -/
def Firm (P : Peer 𝔖) (refusal : P.Served → Option 𝔖.E) (p : Prog 𝔖 α) : Prop :=
  ∀ s σ t r s' σ', Ends P p s σ t r s' σ' → ∀ e ∈ t, ∀ err, refusal e = some err → r = .error err

theorem Firm.bind {refusal : P.Served → Option 𝔖.E} {p : Prog 𝔖 α} {f : α → Prog 𝔖 β}
    (hp : Firm P refusal p) (hf : ∀ a, Firm P refusal (f a)) : Firm P refusal (p.bind f) := by
  intro s σ t r s' σ' h e he err href
  rcases h.bind_inv with ⟨a, s₁, σ₁, t₁, t₂, h₁, h₂, rfl⟩ | ⟨e', rfl, h₁⟩
  · rcases List.mem_append.1 he with he | he
    · cases hp _ _ _ _ _ _ h₁ e he err href
    · exact hf a _ _ _ _ _ _ h₂ e he err href
  · cases hp _ _ _ _ _ _ h₁ e he err href
    rfl

theorem Firm.each {refusal : P.Served → Option 𝔖.E} {f : β → Prog 𝔖 Unit}
    (hf : ∀ b, Firm P refusal (f b)) (l : List β) : Firm P refusal (Prog.each f l) := by
  induction l with
  | nil =>
    intro s σ t r s' σ' h e he
    rw [(Ends.ret_inv h).2.2] at he
    cases he
  | cons b l ih => exact (hf b).bind fun _ => ih

/-! ## Programs that keep to themselves -/

section aloof
variable (J : 𝔖.S → Prop) (B : 𝔖.Q → Bool)

/-- From a state, whatever it hears, a program asks none of `B` and keeps `J`. -/
def Aloof : Prog 𝔖 α → 𝔖.S → Prop
  | .ret _, _ => True
  | .throw _, _ => True
  | .read k, s => Aloof (k s) s
  | .act w k, s => J (𝔖.apply w s) ∧ Aloof k (𝔖.apply w s)
  | .hear q k, s => B q = false ∧
      ∀ a, 𝔖.valid q a s → J (𝔖.after q a s) ∧ Aloof (k a) (𝔖.after q a s)

variable {J B}

theorem Aloof.bind {p : Prog 𝔖 α} {f : α → Prog 𝔖 β} (hf : ∀ a s, J s → Aloof J B (f a) s) :
    ∀ {s : 𝔖.S}, J s → Aloof J B p s → Aloof J B (p.bind f) s := by
  induction p with
  | ret a => exact fun hs _ => hf a _ hs
  | throw e => exact fun _ _ => trivial
  | read k ih => exact fun hs h => ih _ hs h
  | act w k ih => exact fun _ h => ⟨h.1, ih h.1 h.2⟩
  | hear q k ih =>
    exact fun _ h => ⟨h.1, fun a ha => ⟨(h.2 a ha).1, ih a (h.2 a ha).1 (h.2 a ha).2⟩⟩

theorem Aloof.handle {p : Prog 𝔖 α} {f : 𝔖.E → Prog 𝔖 α} (hf : ∀ e s, J s → Aloof J B (f e) s) :
    ∀ {s : 𝔖.S}, J s → Aloof J B p s → Aloof J B (p.handle f) s := by
  induction p with
  | ret a => exact fun _ _ => trivial
  | throw e => exact fun hs _ => hf e _ hs
  | read k ih => exact fun hs h => ih _ hs h
  | act w k ih => exact fun _ h => ⟨h.1, ih h.1 h.2⟩
  | hear q k ih =>
    exact fun _ h => ⟨h.1, fun a ha => ⟨(h.2 a ha).1, ih a (h.2 a ha).1 (h.2 a ha).2⟩⟩

/-- Along a run of a program that is aloof. -/
theorem Aloof.steps {c c' : Config P α} (h : Steps P c t c') :
    J c.st → Aloof J B c.prog c.st → (∀ e ∈ t, B e.q = false) ∧ J c'.st := by
  induction h with
  | refl => exact fun hs _ => ⟨fun e he => (by cases he), hs⟩
  | head hs _ ih =>
    intro hJ ha
    cases hs with
    | read => exact ih hJ ha
    | act => exact ih ha.1 ha.2
    | hear _ _ _ hv => exact ih (ha.2 _ hv).1 (ha.2 _ hv).2
    | serve _ _ hv =>
      obtain ⟨ht, hJ'⟩ := ih (ha.2 _ hv).1 (ha.2 _ hv).2
      exact ⟨fun e he => (List.mem_cons.1 he).elim (fun h => h ▸ ha.1) (ht e), hJ'⟩
    | move => exact ih hJ ha

variable (𝔖 J B)

/-- The program asks none of `B` and keeps `J`, wherever it starts. -/
class Apart (p : Prog 𝔖 α) : Prop where
  aloof : ∀ s, J s → Aloof J B p s

variable {𝔖 J B}

theorem Apart.steps {p p' : Prog 𝔖 α} (hp : Apart 𝔖 J B p)
    (h : Steps P ⟨p, s, σ⟩ t ⟨p', s', σ'⟩) (hs : J s) : (∀ e ∈ t, B e.q = false) ∧ J s' :=
  Aloof.steps h hs (hp.aloof s hs)

/-- A run of a program that asks the party nothing. -/
theorem Apart.ends {p : Prog 𝔖 α} (hp : Apart 𝔖 J P.serves p) {r : Prog.Result 𝔖 α}
    (h : Ends P p s σ t r s' σ') (hs : J s) : t = [] ∧ J s' := by
  obtain ⟨ht, hJ⟩ := hp.steps h hs
  refine ⟨List.eq_nil_iff_forall_not_mem.2 fun e he => ?_, hJ⟩
  have := (Steps.served h e he).1
  rw [ht e he] at this
  cases this

theorem Apart.firm {p : Prog 𝔖 α} (hp : Apart 𝔖 J P.serves p) (hJ : ∀ s, J s)
    (refusal : P.Served → Option 𝔖.E) : Firm P refusal p := by
  intro s σ t r s' σ' h e he
  rw [(hp.ends h (hJ s)).1] at he
  cases he

variable {p : Prog 𝔖 α}

instance (a : α) : Apart 𝔖 J B (.ret a : Prog 𝔖 α) := ⟨fun _ _ => trivial⟩

instance (a : α) : Apart 𝔖 J B (pure a : Prog 𝔖 α) := ⟨fun _ _ => trivial⟩

instance (e : 𝔖.E) : Apart 𝔖 J B (.throw e : Prog 𝔖 α) := ⟨fun _ _ => trivial⟩

theorem Apart.bind {f : α → Prog 𝔖 β} (hp : Apart 𝔖 J B p) (hf : ∀ a, Apart 𝔖 J B (f a)) :
    Apart 𝔖 J B (p.bind f) :=
  ⟨fun s hs => Aloof.bind (fun a => (hf a).aloof) hs (hp.aloof s hs)⟩

theorem Apart.next {f : α → Prog 𝔖 β} (hp : Apart 𝔖 J B p) (hf : ∀ a, Apart 𝔖 J B (f a)) :
    Apart 𝔖 J B (p >>= f) := hp.bind hf

instance {f : α → Prog 𝔖 β} [hp : Apart 𝔖 J B p] [hf : ∀ a, Apart 𝔖 J B (f a)] :
    Apart 𝔖 J B (p.bind f) := hp.bind hf

instance {f : α → Prog 𝔖 β} [hp : Apart 𝔖 J B p] [hf : ∀ a, Apart 𝔖 J B (f a)] :
    Apart 𝔖 J B (p >>= f) := hp.bind hf

theorem Apart.handled {f : 𝔖.E → Prog 𝔖 α} (hp : Apart 𝔖 J B p) (hf : ∀ e, Apart 𝔖 J B (f e)) :
    Apart 𝔖 J B (p.handle f) :=
  ⟨fun s hs => Aloof.handle (fun e => (hf e).aloof) hs (hp.aloof s hs)⟩

instance {f : 𝔖.E → Prog 𝔖 α} [hp : Apart 𝔖 J B p] [hf : ∀ e, Apart 𝔖 J B (f e)] :
    Apart 𝔖 J B (p.handle f) := hp.handled hf

instance {q : Prog 𝔖 Unit} [Apart 𝔖 J B p] [Apart 𝔖 J B q] : Apart 𝔖 J B (p.andFinally q) := by
  unfold Prog.andFinally
  infer_instance

instance {c : Prop} [Decidable c] {q : Prog 𝔖 α} [hp : Apart 𝔖 J B p] [hq : Apart 𝔖 J B q] :
    Apart 𝔖 J B (if c then p else q) := by
  split
  · exact hp
  · exact hq

theorem Apart.each {f : β → Prog 𝔖 Unit} (hf : ∀ b, Apart 𝔖 J B (f b)) (l : List β) :
    Apart 𝔖 J B (Prog.each f l) := by
  induction l with
  | nil => exact inferInstanceAs (Apart 𝔖 J B (.ret ()))
  | cons b l ih => exact inferInstanceAs (Apart 𝔖 J B ((f b).bind fun _ => Prog.each f l))

instance {f : β → Prog 𝔖 Unit} [hf : ∀ b, Apart 𝔖 J B (f b)] (l : List β) :
    Apart 𝔖 J B (Prog.each f l) := Apart.each hf l

end aloof

/-! ## Running against given answers -/

/-- How a program that has ended ended. -/
def Config.result (c : Config P α) : Option (Prog.Result 𝔖 α) :=
  match c.prog with
  | .ret a => some (.ok a)
  | .throw e => some (.error e)
  | _ => none

theorem Config.prog_result {c : Config P α} {r : Prog.Result 𝔖 α} (h : c.result = some r) :
    c.prog = r.prog := by
  obtain ⟨p, s, σ⟩ := c
  cases p <;> cases h <;> rfl

/-- What is left when the `stop`-th question is to be asked, or at the end, with what was
served: before the `n`-th question the party moves by `go n`; the questions it serves it
answers by `reply`, the others are answered by `o`. -/
def playBeside (P : Peer 𝔖) [∀ q a s, Decidable (𝔖.valid q a s)]
    (o : Nat → 𝔖.S → (q : 𝔖.Q) → 𝔖.A q) (go : Nat → P.St → P.St)
    (reply : (q : 𝔖.Q) → P.St → Option (𝔖.A q × P.St)) (stop : Nat) :
    Nat → Prog 𝔖 α → 𝔖.S → P.St → Option (Config P α × List P.Served)
  | _, .ret a, s, σ => some (⟨.ret a, s, σ⟩, [])
  | _, .throw e, s, σ => some (⟨.throw e, s, σ⟩, [])
  | n, .read k, s, σ => playBeside P o go reply stop n (k s) s σ
  | n, .act w k, s, σ => playBeside P o go reply stop n k (𝔖.apply w s) σ
  | n, .hear q k, s, σ =>
    if n = stop then some (⟨.hear q k, s, σ⟩, [])
    else if P.serves q then
      match reply q (go n σ) with
      | none => none
      | some (a, σ₁) =>
        if 𝔖.valid q a s then
          (playBeside P o go reply stop (n + 1) (k a) (𝔖.after q a s) σ₁).map fun (c, t) =>
            (c, ⟨q, go n σ, a, σ₁⟩ :: t)
        else none
    else if 𝔖.valid q (o n s q) s then
      playBeside P o go reply stop (n + 1) (k (o n s q)) (𝔖.after q (o n s q) s) (go n σ)
    else none

theorem Steps.moves {p : Prog 𝔖 α} {c : Config P α} (hm : Relation.ReflTransGen P.moves σ σ')
    (h : Steps P ⟨p, s, σ'⟩ t c) : Steps P ⟨p, s, σ⟩ t c := by
  induction hm using Relation.ReflTransGen.head_induction_on with
  | refl => exact h
  | head hm _ ih => exact .move hm ih

theorem playBeside_steps [∀ q a s, Decidable (𝔖.valid q a s)]
    {o : Nat → 𝔖.S → (q : 𝔖.Q) → 𝔖.A q} {go : Nat → P.St → P.St}
    {reply : (q : 𝔖.Q) → P.St → Option (𝔖.A q × P.St)} {stop : Nat}
    (hgo : ∀ n σ, Relation.ReflTransGen P.moves σ (go n σ))
    (hreply : ∀ q σ a σ', reply q σ = some (a, σ') → P.answers q σ a σ') (p : Prog 𝔖 α) :
    ∀ {n : Nat} {s : 𝔖.S} {σ : P.St} {c : Config P α} {t : List P.Served},
      playBeside P o go reply stop n p s σ = some (c, t) → Steps P ⟨p, s, σ⟩ t c := by
  induction p with
  | ret a => intro n s σ c t h; cases h; exact .refl _
  | throw e => intro n s σ c t h; cases h; exact .refl _
  | read k ih => intro n s σ c t h; exact .head (.read k s σ) (ih s h)
  | act w k ih => intro n s σ c t h; exact .head (.act w k s σ) (ih h)
  | hear q k ih =>
    intro n s σ c t h
    rw [playBeside] at h
    split at h
    · cases h
      exact .refl _
    · by_cases hq : P.serves q = true
      · rw [if_pos hq] at h
        split at h
        · cases h
        · split at h
          · obtain ⟨⟨c₁, t₁⟩, h₁, h₂⟩ := Option.map_eq_some_iff.1 h
            cases h₂
            exact .moves (hgo n σ) (.head (.serve k hq ‹_› (hreply _ _ _ _ ‹_›)) (ih _ h₁))
          · cases h
      · rw [if_neg hq] at h
        rw [Bool.not_eq_true] at hq
        split at h
        · exact .moves (hgo n σ) (.head (.hear k _ hq ‹_›) (ih _ h))
        · cases h

end Beside

end CarbonRuntime.Core
