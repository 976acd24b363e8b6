import CarbonRuntime.Adapters.Telegram.Speculation
import Mathlib.Algebra.Order.BigOperators.Group.List
import Mathlib.Algebra.Order.Group.Nat

/-!
# What is fetched ahead stays within its bounds (adapters/telegram/live.ts:92-106, 312-328, 391-568)

**Results.** `bounds_inductive`: what holds after every step, in whatever order they come. `fetches_bounded` reads it:
the members and bytes that are held, one fetch an update, what a settled batch is handed, what was given up, and
what a confirmation leaves. `confirmed_remains` is that an update that is confirmed can come back.
-/

open CarbonRuntime.Core

namespace CarbonRuntime.Adapters.Telegram.Speculation

variable (K : Settings)

/-! ## What holds -/

/-- The file is the whole body of the media, under the limit. -/
def Whole (media : Media) (got : Got) (file : Fetched) : Prop :=
  got = .body file.bytes ∧ file = ⟨file.bytes, media.mime, media.fileName⟩ ∧ file.bytes.length ≤ K.limit

/-- The file came by a fetch of the media that had not been aborted. -/
def Fetches (chains : List Chain) (k update : Nat) (media : Media) (fetched : Option Fetched) : Prop :=
  ∃ c got, chains[k]? = some c ∧ c.update = update ∧ c.media = media ∧ c.done = some ⟨got, false⟩ ∧
    ∀ file, fetched = some file → Whole K media got file

structure Bounds (s : State) : Prop where
  members : s.spec.rows.length ≤ speculativeMembers
  bytes : reservedBytes s ≤ speculativeChains * K.limit
  once : (s.seen.map (·.update)).Nodup
  /-- What is in flight for an update runs, is of the update and is not aborted. -/
  flight : ∀ (u : Nat) (f : Flight), s.inflight.find u = some f →
    ∃ c : Chain, s.chains[f.chain]? = some c ∧ c.update = u ∧ c.aborted = false ∧ c.done = none
  running : ∀ (k : Nat) (c : Chain), s.chains[k]? = some c → c.done = none → c.aborted = false →
    s.inflight.find c.update = some ⟨c.update, k⟩
  apart : ∀ u : Nat, (s.inflight.find u).isSome → s.media.find u = none
  cached : ∀ (u : Nat) (e : Cached), s.media.find u = some e → ∃ media, Fetches K s.chains e.chain u media e.fetched
  /-- A fetch is of the media of its update, while that is not confirmed. -/
  own : ∀ (k : Nat) (c : Chain), s.chains[k]? = some c → s.open' c.update = true →
    ∃ m ∈ s.seen, m.update = c.update ∧ m.media = some c.media
  covered : ∀ (u : Nat) (e : Speculative), s.spec.find u = some e → s.inflight.find u = some ⟨u, e.chain⟩ ∨
    (s.inflight.find u = none ∧ (s.media.find u).isSome ∧
      ∃ c : Chain, s.chains[e.chain]? = some c ∧ c.update = u ∧ c.done.isSome)
  dropped : ∀ u ∈ s.abandoned, s.spec.find u = none ∧
    (∀ e : Cached, s.media.find u = some e → ∀ c : Chain, s.chains[e.chain]? = some c → c.speculative = false) ∧
    (∀ f : Flight, s.inflight.find u = some f → ∀ c : Chain, s.chains[f.chain]? = some c → c.speculative = false)
  awaited : ∀ w ∈ s.waiting, s.inflight.find w.member.update = some ⟨w.member.update, w.chain⟩ ∧
    s.spec.find w.member.update = none ∧
    ∃ c : Chain, s.chains[w.chain]? = some c ∧ w.member.media = some c.media
  handed : ∀ h ∈ s.handed, ∀ file, h.2 = some file →
    ∃ k media, h.1.media = some media ∧ Fetches K s.chains k h.1.update media h.2
  confirmed : ∀ o : Nat, s.offset = some o → ∀ u, u < o → s.spec.find u = none ∧ u ∉ s.abandoned ∧
    ((s.media.find u).isSome → u ∈ s.late) ∧ ((s.inflight.find u).isSome → u ∈ s.late) ∧
    (u ∈ s.seen.map (·.update) ∨ u ∈ s.sighted.map (·.1) → u ∈ s.repeated)

variable {K} {s : State} {u k now : Nat} {m : Member} {c : Chain} {media : Media} {fetched : Option Fetched}

theorem Fetches.mono {chains chains' : List Chain} (h : Fetches K chains k u media fetched)
    (hch : ∀ c, chains[k]? = some c → c.done.isSome → ∃ c', chains'[k]? = some c' ∧ c'.update = c.update ∧
      c'.media = c.media ∧ c'.done = c.done) : Fetches K chains' k u media fetched := by
  obtain ⟨c, got, hc, hu, hm, hd, hfile⟩ := h
  obtain ⟨c', hc', hu', hm', hd'⟩ := hch c hc (by rw [hd]; rfl)
  exact ⟨c', got, hc', hu'.trans hu, hm'.trans hm, hd'.trans hd, hfile⟩

theorem open_of_lt {o : Nat} (ho : s.offset = some o) (h : s.open' u = true) : ¬ u < o := by
  rw [State.open', ho] at h
  simpa using h

theorem open_congr {s' : State} (h : s'.offset = s.offset) : s'.open' u = s.open' u := by
  rw [State.open', State.open', h]

/-- The members of a batch were seen and are not confirmed. -/
theorem mem_retained (h : m ∈ retained s) : m ∈ s.seen ∧ s.open' m.update = true := by
  rw [retained, List.mem_mergeSort] at h
  exact List.mem_filter.1 h

theorem sum_reserved_le {t : Table Speculative.update} (h : t.rows.Sublist s.spec.rows) :
    (t.rows.map (·.reserved)).sum ≤ reservedBytes s := (h.map _).sum_le_sum fun _ _ => Nat.zero_le _

theorem bounds_start : Bounds K {} where
  members := Nat.zero_le _
  bytes := Nat.zero_le _
  once := List.nodup_nil
  flight _ _ h := nomatch h
  running _ _ h := nomatch h
  apart _ _ := rfl
  cached _ _ h := nomatch h
  own _ _ h := nomatch h
  covered _ _ h := nomatch h
  dropped _ h := nomatch h
  awaited _ h := nomatch h
  handed _ h := nomatch h
  confirmed _ h := nomatch h

theorem Bounds.remember (h : Bounds K s) (now : Nat) (m : Member) : Bounds K (Speculation.remember s now m) := by
  unfold Speculation.remember
  split
  · exact h
  · rename_i hnew
    have hnew : ∀ x ∈ s.seen, x.update ≠ m.update := by simpa using hnew
    refine { h with once := ?_, own := ?_, confirmed := ?_ }
    · rw [List.map_append, List.map_singleton]
      refine List.nodup_append.2 ⟨h.once, by simp, fun a ha b hb => ?_⟩
      obtain ⟨x, hx, rfl⟩ := List.mem_map.1 ha
      rw [List.mem_singleton.1 hb]
      exact hnew x hx
    · intro k c hc hopen
      obtain ⟨x, hx, hxm⟩ := h.own k c hc hopen
      exact ⟨x, List.mem_append_left _ hx, hxm⟩
    · intro o ho u hu
      obtain ⟨hspec, hab, hmedia, hflight, hseen⟩ := h.confirmed o ho u hu
      refine ⟨hspec, hab, hmedia, hflight, fun hin => ?_⟩
      have hclosed : ∀ v, v < o → s.open' v = false := fun v hv => by
        rw [State.open', ho]
        simpa using hv
      dsimp only at hin ⊢
      rw [List.map_append, List.map_append, List.mem_append, List.mem_append] at hin
      have hcases : (u ∈ s.seen.map (·.update) ∨ u ∈ s.sighted.map (·.1)) ∨ u = m.update := by
        rcases hin with (hin | hin) | (hin | hin)
        · exact .inl (.inl hin)
        · exact .inr (by simpa using hin)
        · exact .inl (.inr hin)
        · exact .inr (by simpa using hin)
      rcases hcases with hin | rfl
      · split
        · exact hseen hin
        · exact List.mem_append_left _ (hseen hin)
      · rw [if_neg (by simp [hclosed _ hu])]
        exact List.mem_append_right _ List.mem_cons_self

/-- A member leaves the speculative set. -/
theorem Bounds.release (h : Bounds K s) (u : Nat) : Bounds K { s with spec := s.spec.erase u } := by
  have hnone : ∀ v, s.spec.find v = none → (s.spec.erase u).find v = none := by
    intro v hv
    rw [Table.find_erase]
    split
    · rfl
    · exact hv
  refine { h with members := ?_, bytes := ?_, covered := ?_, dropped := ?_, awaited := ?_, confirmed := ?_ }
  · exact Nat.le_trans List.filter_sublist.length_le h.members
  · exact Nat.le_trans (sum_reserved_le List.filter_sublist) h.bytes
  · exact fun v e he => h.covered v e (Table.find_erase_some he).2
  · exact fun v hv => ⟨hnone v (h.dropped v hv).1, (h.dropped v hv).2⟩
  · exact fun w hw => ⟨(h.awaited w hw).1, hnone _ (h.awaited w hw).2.1, (h.awaited w hw).2.2⟩
  · exact fun o ho v hv => ⟨hnone v (h.confirmed o ho v hv).1, (h.confirmed o ho v hv).2⟩

/-! A fetch that is begun is behind the others, and is what is in flight of its update. -/

theorem chains_begin_old {speculative : Bool} (hc : s.chains[k]? = some c) :
    (s.begin u media speculative).chains[k]? = some c := by
  rw [← hc]
  exact List.getElem?_append_left (List.getElem?_eq_some_iff.1 hc).1

theorem chains_begin_new {speculative : Bool} :
    (s.begin u media speculative).chains[s.chains.length]? = some { update := u, media, speculative } :=
  List.getElem?_concat_length

theorem chains_begin {speculative : Bool} (hc : (s.begin u media speculative).chains[k]? = some c) :
    s.chains[k]? = some c ∨ k = s.chains.length ∧ c = { update := u, media, speculative } := by
  rcases Nat.lt_trichotomy k s.chains.length with hk | rfl | hk
  · rw [← hc]
    exact .inl (List.getElem?_append_left hk).symm
  · exact .inr ⟨rfl, Option.some.inj (hc.symm.trans chains_begin_new)⟩
  · have hend : (s.begin u media speculative).chains[k]? = none :=
      List.getElem?_eq_none (by simp [State.begin]; omega)
    rw [hend] at hc
    cases hc

theorem inflight_begin_self (s : State) (u : Nat) (media : Media) (speculative : Bool) :
    (s.begin u media speculative).inflight.find u = some ⟨u, s.chains.length⟩ :=
  Table.find_put_self s.inflight ⟨u, s.chains.length⟩

theorem inflight_begin {v : Nat} (speculative : Bool) (hv : v ≠ u) :
    (s.begin u media speculative).inflight.find v = s.inflight.find v :=
  Table.find_put_other s.inflight ⟨u, s.chains.length⟩ hv

section begin

variable (hm : m ∈ s.seen) (hmedia : m.media = some media) (hopen : s.open' m.update = true)
  (hfree : s.media.find m.update = none) (hidle : s.inflight.find m.update = none)

include hm hmedia hopen hfree hidle

/-- Nothing of the update is cached or in flight. -/
theorem Bounds.begin (h : Bounds K s) (speculative : Bool) (hspec : s.spec.find m.update = none)
    (hkept : speculative = true → m.update ∉ s.abandoned) : Bounds K (s.begin m.update media speculative) := by
  have hmono : ∀ {k u : Nat} {media' : Media} {fetched : Option Fetched}, Fetches K s.chains k u media' fetched →
      Fetches K (s.begin m.update media speculative).chains k u media' fetched := fun hf =>
    hf.mono fun c hc _ => ⟨c, chains_begin_old hc, rfl, rfl, rfl⟩
  refine { h with
    flight := ?_, running := ?_, apart := ?_, cached := ?_, own := ?_, covered := ?_, dropped := ?_, awaited := ?_
    handed := ?_, confirmed := ?_ }
  · intro u f hf
    by_cases hu : u = m.update
    · subst hu
      obtain rfl := Option.some.inj ((inflight_begin_self s _ media speculative).symm.trans hf)
      exact ⟨_, chains_begin_new, rfl, rfl, rfl⟩
    · rw [inflight_begin _ hu] at hf
      obtain ⟨c, hc, hrest⟩ := h.flight u f hf
      exact ⟨c, chains_begin_old hc, hrest⟩
  · intro k c hc hd ha
    rcases chains_begin hc with hc | ⟨rfl, rfl⟩
    · have hrun := h.running k c hc hd ha
      have hu : c.update ≠ m.update := fun hu => by
        rw [hu, hidle] at hrun
        cases hrun
      rw [inflight_begin _ hu, hrun]
    · exact inflight_begin_self _ _ _ _
  · intro u hu
    by_cases hum : u = m.update
    · exact hum ▸ hfree
    · rw [inflight_begin _ hum] at hu
      exact h.apart u hu
  · intro u e he
    obtain ⟨media', hf⟩ := h.cached u e he
    exact ⟨media', hmono hf⟩
  · intro k c hc ho
    rcases chains_begin hc with hc | ⟨rfl, rfl⟩
    · exact h.own k c hc ho
    · exact ⟨m, hm, rfl, hmedia⟩
  · intro u e he
    have hu : u ≠ m.update := by
      rintro rfl
      rw [show (s.begin m.update media speculative).spec = s.spec from rfl, hspec] at he
      cases he
    rw [inflight_begin _ hu]
    obtain hf | ⟨hf, hc, c, hck, hrest⟩ := h.covered u e he
    · exact .inl hf
    · exact .inr ⟨hf, hc, c, chains_begin_old hck, hrest⟩
  · intro u hu
    obtain ⟨hs, hc, hf⟩ := h.dropped u hu
    refine ⟨hs, fun e he c hck => ?_, fun f hff c hck => ?_⟩
    · obtain ⟨_, c', _, hc', -⟩ := h.cached u e he
      obtain rfl := Option.some.inj ((chains_begin_old hc').symm.trans hck)
      exact hc e he c' hc'
    · by_cases hum : u = m.update
      · subst hum
        obtain rfl := Option.some.inj ((inflight_begin_self s _ media speculative).symm.trans hff)
        obtain rfl := Option.some.inj (chains_begin_new.symm.trans hck)
        exact Bool.eq_false_iff.2 fun hs => hkept hs hu
      · rw [inflight_begin _ hum] at hff
        obtain ⟨c', hc', -⟩ := h.flight u f hff
        obtain rfl := Option.some.inj ((chains_begin_old hc').symm.trans hck)
        exact hf f hff c' hc'
  · intro w hw
    obtain ⟨hf, hs, c, hc, hcm⟩ := h.awaited w hw
    have hu : w.member.update ≠ m.update := fun hu => by
      rw [hu, hidle] at hf
      cases hf
    exact ⟨(inflight_begin _ hu).trans hf, hs, c, chains_begin_old hc, hcm⟩
  · intro x hx file hfile
    obtain ⟨k, media', hxm, hf⟩ := h.handed x hx file hfile
    exact ⟨k, media', hxm, hmono hf⟩
  · intro o ho u hu
    obtain ⟨hs, ha, hc, hf, hseen⟩ := h.confirmed o ho u hu
    refine ⟨hs, ha, hc, fun hff => hf ?_, hseen⟩
    rwa [inflight_begin _ fun hum : u = m.update => open_of_lt ho hopen (hum ▸ hu)] at hff

end begin

/-- A member enters the speculative set, for a fetch that is under way. -/
theorem Bounds.reserve {reserved : Nat} (h : Bounds K s) (hflight : s.inflight.find u = some ⟨u, k⟩)
    (hspec : s.spec.find u = none) (hopen : s.open' u = true) (hkept : u ∉ s.abandoned)
    (hwait : ∀ w ∈ s.waiting, w.member.update ≠ u) (hlen : s.spec.rows.length < speculativeMembers)
    (hroom : reservedBytes s + reserved ≤ speculativeChains * K.limit) :
    Bounds K { s with spec := s.spec.put ⟨u, reserved, now, k⟩ } := by
  have hrows := Table.rows_put_new (t := s.spec) (a := ⟨u, reserved, now, k⟩) hspec
  have hother : ∀ v, v ≠ u → (s.spec.put ⟨u, reserved, now, k⟩).find v = s.spec.find v := fun v hv =>
    Table.find_put_other s.spec ⟨u, reserved, now, k⟩ hv
  refine { h with members := ?_, bytes := ?_, covered := ?_, dropped := ?_, awaited := ?_, confirmed := ?_ }
  · dsimp only
    rw [hrows, List.length_append]
    exact hlen
  · rw [reservedBytes, hrows, List.map_append, List.sum_append]
    simpa [reservedBytes] using hroom
  · intro v e he
    by_cases hv : v = u
    · subst hv
      rw [Table.find_put_self s.spec ⟨v, reserved, now, k⟩] at he
      obtain rfl := Option.some.inj he
      exact .inl hflight
    · exact h.covered v e ((hother v hv).symm.trans he)
  · intro v hv
    exact ⟨(hother v fun hvu => hkept (hvu ▸ hv)).trans (h.dropped v hv).1, (h.dropped v hv).2⟩
  · intro w hw
    obtain ⟨hf, hs, hc⟩ := h.awaited w hw
    exact ⟨hf, (hother _ (hwait w hw)).trans hs, hc⟩
  · intro o ho v hv
    obtain ⟨hs, hrest⟩ := h.confirmed o ho v hv
    exact ⟨(hother v fun hvu => open_of_lt ho hopen (hvu ▸ hv)).trans hs, hrest⟩

theorem chains_abort (s : State) (k i : Nat) :
    (abort s k).chains[i]? = (s.chains[i]?).map fun c => if i = k then { c with aborted := true } else c := by
  simp [abort]

/-- What a chain is of and what became of it stay when one is aborted. -/
theorem chains_abort_old {i : Nat} (hc : s.chains[i]? = some c) : ∃ c', (abort s k).chains[i]? = some c' ∧
    c'.update = c.update ∧ c'.media = c.media ∧ c'.speculative = c.speculative ∧ c'.done = c.done ∧
    (i ≠ k → c' = c) := by
  refine ⟨_, by rw [chains_abort, hc]; rfl, ?_⟩
  by_cases hi : i = k <;> simp [hi]

theorem chains_abort_new {i : Nat} (hc : (abort s k).chains[i]? = some c) : ∃ c', s.chains[i]? = some c' ∧
    c.update = c'.update ∧ c.media = c'.media ∧ c.speculative = c'.speculative ∧ c.done = c'.done ∧
    (i = k → c.aborted = true) ∧ (i ≠ k → c = c') := by
  rw [chains_abort] at hc
  obtain ⟨c', hc', rfl⟩ := Option.map_eq_some_iff.1 hc
  refine ⟨c', hc', ?_⟩
  by_cases hi : i = k <;> simp [hi]

/-- A member that got too old is given up: its fetch is aborted, and nothing of it is cached or in flight. -/
theorem Bounds.expire (h : Bounds K s) {e : Speculative} (he : e ∈ s.spec.rows) : Bounds K (expire K now s e) := by
  unfold Speculation.expire
  split
  · exact h
  have hfind : s.spec.find e.update = some e := Table.mem_find he
  have hchain : ∃ c : Chain, s.chains[e.chain]? = some c ∧ c.update = e.update := by
    obtain hf | ⟨_, _, c, hc, hu, -⟩ := h.covered _ e hfind
    · obtain ⟨c, hc, hu, -⟩ := h.flight _ _ hf
      exact ⟨c, hc, hu⟩
    · exact ⟨c, hc, hu⟩
  obtain ⟨own, hown, hownu⟩ := hchain
  -- A chain of another update is not the one that is aborted.
  have hapart : ∀ (i : Nat) (c : Chain), s.chains[i]? = some c → c.update ≠ e.update → i ≠ e.chain := by
    rintro i c hc hu rfl
    exact hu (by rw [Option.some.inj (hc.symm.trans hown), hownu])
  have hmono : ∀ {k u : Nat} {media' : Media} {fetched : Option Fetched}, Fetches K s.chains k u media' fetched →
      Fetches K (abort s e.chain).chains k u media' fetched := fun hf => hf.mono fun c hc _ => by
    obtain ⟨c', hc', hu, hm, -, hd, -⟩ := chains_abort_old (k := e.chain) hc
    exact ⟨c', hc', hu, hm, hd⟩
  refine
    { h with
      members := ?_, bytes := ?_, flight := ?_, running := ?_, apart := ?_, cached := ?_, own := ?_, covered := ?_
      dropped := ?_, awaited := ?_, handed := ?_, confirmed := ?_ }
  · exact Nat.le_trans List.filter_sublist.length_le h.members
  · exact Nat.le_trans (sum_reserved_le List.filter_sublist) h.bytes
  · intro u f hf
    obtain ⟨hu, hf⟩ := Table.find_erase_some hf
    obtain ⟨c, hc, hcu, ha, hd⟩ := h.flight u f hf
    obtain ⟨c', hc', -, -, -, -, hsame⟩ := chains_abort_old (k := e.chain) hc
    rw [hsame (hapart _ c hc (hcu ▸ hu))] at hc'
    exact ⟨c, hc', hcu, ha, hd⟩
  · intro k c hc hd ha
    obtain ⟨c', hc', hu, -, -, hd', hab, hsame⟩ := chains_abort_new hc
    have hk : k ≠ e.chain := fun hk => by
      rw [hab hk] at ha
      cases ha
    obtain rfl := hsame hk
    have hrun := h.running k c hc' hd ha
    have hcu : c.update ≠ e.update := by
      intro hcu
      rw [hcu] at hrun
      obtain hf | ⟨hf, -⟩ := h.covered _ e hfind
      · rw [hrun] at hf
        exact hk (congrArg Flight.chain (Option.some.inj hf))
      · rw [hrun] at hf
        cases hf
    exact (Table.find_erase_other _ hcu).trans hrun
  · intro u hu
    obtain ⟨f, hf⟩ := Option.isSome_iff_exists.1 hu
    obtain ⟨hne, hf⟩ := Table.find_erase_some hf
    exact (Table.find_erase_other _ hne).trans (h.apart u (by rw [hf]; rfl))
  · intro u x hx
    obtain ⟨media', hf⟩ := h.cached u x (Table.find_erase_some hx).2
    exact ⟨media', hmono hf⟩
  · intro k c hc ho
    obtain ⟨c', hc', hu, hm, -⟩ := chains_abort_new hc
    rw [hu, hm]
    exact h.own k c' hc' (hu ▸ ho)
  · intro u x hx
    obtain ⟨hu, hx⟩ := Table.find_erase_some hx
    obtain hf | ⟨hf, hcached, c, hc, hcu, hd⟩ := h.covered u x hx
    · exact .inl ((Table.find_erase_other _ hu).trans hf)
    · obtain ⟨c', hc', hu', -, -, hd', -⟩ := chains_abort_old (k := e.chain) hc
      refine .inr ⟨(Table.find_erase_other _ hu).trans hf, ?_, c', hc', hu'.trans hcu, hd' ▸ hd⟩
      exact (congrArg Option.isSome (Table.find_erase_other s.media hu)).trans hcached
  · intro u hu
    by_cases hue : u = e.update
    · subst hue
      refine ⟨(Table.find_erase s.spec _ _).trans (if_pos rfl), fun x hx => ?_, fun f hf => ?_⟩
      · exact absurd rfl (Table.find_erase_some hx).1
      · exact absurd rfl (Table.find_erase_some hf).1
    · have hu : u ∈ s.abandoned := (List.mem_append.1 hu).resolve_right (by simpa using hue)
      obtain ⟨hs, hc, hf⟩ := h.dropped u hu
      refine ⟨(Table.find_erase_other _ hue).trans hs, fun x hx c hck => ?_, fun f hff c hck => ?_⟩
      · obtain ⟨c', hc', -, -, hspec, -⟩ := chains_abort_new hck
        exact hspec.trans (hc x (Table.find_erase_some hx).2 c' hc')
      · obtain ⟨c', hc', -, -, hspec, -⟩ := chains_abort_new hck
        exact hspec.trans (hf f (Table.find_erase_some hff).2 c' hc')
  · intro w hw
    obtain ⟨hf, hs, c, hc, hcm⟩ := h.awaited w hw
    have hu : w.member.update ≠ e.update := fun hu => by
      rw [hu, hfind] at hs
      cases hs
    obtain ⟨c', hc', -, hm, -⟩ := chains_abort_old (k := e.chain) hc
    exact ⟨(Table.find_erase_other _ hu).trans hf, (Table.find_erase_other _ hu).trans hs, c', hc', by rw [hcm, hm]⟩
  · intro x hx file hfile
    obtain ⟨k, media', hxm, hf⟩ := h.handed x hx file hfile
    exact ⟨k, media', hxm, hmono hf⟩
  · intro o ho u hu
    obtain ⟨hs, ha, hc, hf, hseen⟩ := h.confirmed o ho u hu
    have hue : u ≠ e.update := by
      rintro rfl
      rw [hfind] at hs
      cases hs
    refine ⟨(Table.find_erase_other _ hue).trans hs, ?_, fun hx => hc ?_, fun hx => hf ?_, hseen⟩
    · exact fun hin => (List.mem_append.1 hin).elim ha (by simpa using hue)
    · exact (congrArg Option.isSome (Table.find_erase_other s.media hue)).symm.trans hx
    · exact (congrArg Option.isSome (Table.find_erase_other s.inflight hue)).symm.trans hx

/-! `startEager`: the old members leave, then what was seen is begun while there is room. -/

theorem mem_expire {e x : Speculative} (hx : x ∈ s.spec.rows) (hne : x.update ≠ e.update) :
    x ∈ (expire K now s e).spec.rows := by
  unfold expire
  split
  · exact hx
  · exact Table.mem_erase.2 ⟨hx, hne⟩

theorem Bounds.expireAll {l : List Speculative} (h : Bounds K s) (hl : (l.map (·.update)).Nodup)
    (hin : ∀ e ∈ l, e ∈ s.spec.rows) : Bounds K (l.foldl (Speculation.expire K now) s) := by
  induction l generalizing s with
  | nil => exact h
  | cons e l ih =>
    rw [List.map_cons, List.nodup_cons] at hl
    refine ih (h.expire (hin e List.mem_cons_self)) hl.2 fun x hx => ?_
    exact mem_expire (hin x (List.mem_cons_of_mem _ hx)) fun hxe => hl.1 (hxe ▸ List.mem_map_of_mem hx)

/-- Nothing is speculative that is neither cached nor in flight. -/
theorem Bounds.spec_none (h : Bounds K s) (hfree : s.media.find u = none) (hidle : s.inflight.find u = none) :
    s.spec.find u = none := by
  cases hs : s.spec.find u with
  | none => rfl
  | some e =>
    obtain hf | ⟨-, hc, -⟩ := h.covered u e hs
    · rw [hidle] at hf
      cases hf
    · rw [hfree] at hc
      cases hc

theorem Bounds.no_waiting (h : Bounds K s) (hidle : s.inflight.find u = none) :
    ∀ w ∈ s.waiting, w.member.update ≠ u := by
  rintro w hw rfl
  rw [(h.awaited w hw).1] at hidle
  cases hidle

theorem consider_step {held : Nat} (h : Bounds K s) (hheld : held = reservedBytes s) (hm : m ∈ s.seen)
    (hopen : s.open' m.update = true) : Bounds K (consider K now (s, held) m).1 ∧
    (consider K now (s, held) m).2 = reservedBytes (consider K now (s, held) m).1 ∧
    (consider K now (s, held) m).1.seen = s.seen ∧ (consider K now (s, held) m).1.offset = s.offset := by
  have hstay : Bounds K s ∧ held = reservedBytes s ∧ s.seen = s.seen ∧ s.offset = s.offset := ⟨h, hheld, rfl, rfl⟩
  unfold consider
  cases hw : wanted K m with
  | none => exact hstay
  | some media =>
    dsimp only
    split
    · exact hstay
    rename_i hnew
    simp only [Bool.or_eq_true, not_or, Option.not_isSome_iff_eq_none, List.contains_iff_mem] at hnew
    obtain ⟨⟨hfree, hidle⟩, hkept⟩ := hnew
    split
    · exact hstay
    rename_i hroom
    simp only [ge_iff_le, gt_iff_lt, Bool.or_eq_true, decide_eq_true_eq, not_or, Nat.not_le, Nat.not_lt] at hroom
    have hspec := h.spec_none hfree hidle
    have hmedia : m.media = some media := (Option.filter_eq_some_iff.1 hw).1
    have hbegun := h.begin hm hmedia hopen hfree hidle true hspec fun _ => hkept
    have hfor : (mediaFor s m.update media (some (media.bytes, now))).1 =
        { s.begin m.update media true with
          spec := s.spec.put ⟨m.update, media.bytes, now, s.chains.length⟩ } := by
      simp only [mediaFor, hfree, hidle, Option.isNone_some, Bool.false_eq_true, if_false]
    rw [hfor]
    refine ⟨?_, ?_, rfl, rfl⟩
    · exact hbegun.reserve (inflight_begin_self _ _ _ _) hspec hopen hkept (h.no_waiting hidle) hroom.1
        (hheld ▸ hroom.2)
    · have hrows := Table.rows_put_new (t := s.spec)
        (a := ⟨m.update, media.bytes, now, s.chains.length⟩) hspec
      rw [reservedBytes, hrows, List.map_append, List.sum_append, hheld]
      simp [reservedBytes]

theorem Bounds.startEager (h : Bounds K s) (now : Nat) : Bounds K (startEager K s now) := by
  have hfold : ∀ (l : List Member) (s : State) (held : Nat), Bounds K s → held = reservedBytes s →
      (∀ m ∈ l, m ∈ s.seen ∧ s.open' m.update = true) → Bounds K (l.foldl (consider K now) (s, held)).1 := by
    intro l
    induction l with
    | nil => exact fun _ _ h _ _ => h
    | cons m l ih =>
      intro s held h hheld hl
      obtain ⟨hb, hh, hseen, hoff⟩ := @consider_step K s now m held h hheld (hl m List.mem_cons_self).1
        (hl m List.mem_cons_self).2
      refine ih _ _ hb hh fun x hx => ?_
      obtain ⟨hxs, hxo⟩ := hl x (List.mem_cons_of_mem _ hx)
      exact ⟨(congrArg (x ∈ ·) hseen).mpr hxs, (open_congr hoff).trans hxo⟩
  exact hfold _ _ _ (h.expireAll s.spec.nodup fun _ he => he) rfl fun m hm => mem_retained hm

/-! `settle`: each wanted member is handed what is cached, or waits. -/

/-- A fetch of an update that is not confirmed is of the media that was seen of it. -/
theorem Bounds.own_media (h : Bounds K s) (hc : s.chains[k]? = some c) (hu : c.update = m.update) (hm : m ∈ s.seen)
    (hopen : s.open' m.update = true) : m.media = some c.media := by
  obtain ⟨m', hm', hmu, hmm⟩ := h.own k c hc (hu ▸ hopen)
  rw [List.inj_on_of_nodup_map h.once hm (by exact hm') (hu.symm.trans hmu.symm), hmm]

/-- What the fetch of a member of the batch is answered or waits for. -/
theorem Bounds.mediaFor (h : Bounds K s) (hm : m ∈ s.seen) (hmedia : m.media = some media)
    (hopen : s.open' m.update = true) {s' : State} {r : Option Fetched ⊕ Nat}
    (hr : mediaFor s m.update media none = (s', r)) : Bounds K s' ∧ s'.media = s.media ∧ s'.seen = s.seen ∧
    s'.offset = s.offset ∧ s'.handed = s.handed ∧ s'.waiting = s.waiting ∧ s'.spec.find m.update = none ∧
    match r with
    | .inl fetched => ∃ e, s.media.find m.update = some e ∧ fetched = e.fetched
    | .inr k => s.media.find m.update = none ∧ s'.inflight.find m.update = some ⟨m.update, k⟩ := by
  have hrel := h.release m.update
  have hgone : (s.spec.erase m.update).find m.update = none := (Table.find_erase _ _ _).trans (if_pos rfl)
  unfold Speculation.mediaFor at hr
  rw [Option.isNone_none, if_pos rfl] at hr
  cases hfind : s.media.find m.update with
  | some e =>
    simp only [hfind, Prod.mk.injEq] at hr
    obtain ⟨rfl, rfl⟩ := hr
    exact ⟨hrel, rfl, rfl, rfl, rfl, rfl, hgone, e, rfl, rfl⟩
  | none =>
    cases hfl : s.inflight.find m.update with
    | some f =>
      simp only [hfind, hfl, Prod.mk.injEq] at hr
      obtain ⟨rfl, rfl⟩ := hr
      have hf : f = ⟨m.update, f.chain⟩ := by
        obtain ⟨u, k⟩ := f
        rw [show u = m.update from Table.find_key hfl]
      exact ⟨hrel, rfl, rfl, rfl, rfl, rfl, hgone, rfl, hf ▸ hfl⟩
    | none =>
      simp only [hfind, hfl, Prod.mk.injEq] at hr
      obtain ⟨rfl, rfl⟩ := hr
      refine ⟨?_, rfl, rfl, rfl, rfl, rfl, hgone, rfl, inflight_begin_self _ _ _ _⟩
      exact Bounds.begin (s := { s with spec := s.spec.erase m.update }) hm hmedia hopen hfind hfl hrel false hgone
        fun hf => by cases hf

/-- What the batch is served of a member: the answer that is cached, or a fetch. -/
def Served (s : State) (m : Member) : Prop :=
  (∃ e, s.media.find m.update = some e ∧ (m, e.fetched) ∈ s.handed) ∨
    s.media.find m.update = none ∧ ∃ k, ⟨m, k⟩ ∈ s.waiting

theorem settle_step (h : Bounds K s) (hm : m ∈ s.seen) (hopen : s.open' m.update = true) :
    Bounds K (settleOne K s m) ∧ (settleOne K s m).media = s.media ∧ (settleOne K s m).seen = s.seen ∧
    (settleOne K s m).offset = s.offset ∧ s.handed ⊆ (settleOne K s m).handed ∧
    s.waiting ⊆ (settleOne K s m).waiting ∧ ((wanted K m).isSome → Served (settleOne K s m) m) := by
  unfold settleOne
  cases hw : wanted K m with
  | none => exact ⟨h, rfl, rfl, rfl, List.Subset.refl _, List.Subset.refl _, fun hw => nomatch hw⟩
  | some media =>
    have hmedia : m.media = some media := (Option.filter_eq_some_iff.1 hw).1
    obtain ⟨s', r, hr⟩ : ∃ s' r, mediaFor s m.update media none = (s', r) := ⟨_, _, rfl⟩
    obtain ⟨hb, hmap, hseen, hoff, hhanded, hwaiting, hspec, hrest⟩ := h.mediaFor hm hmedia hopen hr
    dsimp only
    rw [hr]
    cases r with
    | inl fetched =>
      obtain ⟨e, he, rfl⟩ := hrest
      refine ⟨{ hb with handed := ?_ }, hmap, hseen, hoff, ?_, ?_, fun _ => .inl ⟨e, ?_, ?_⟩⟩
      · intro x hx file hfile
        rcases List.mem_append.1 hx with hx | hx
        · exact hb.handed x hx file hfile
        · obtain rfl := List.mem_singleton.1 hx
          obtain ⟨media', hf⟩ := hb.cached m.update e (hmap ▸ he)
          obtain ⟨c, _, hc, hcu, hcm', -⟩ := id hf
          have hcm := hb.own_media hc hcu (hseen ▸ hm) ((open_congr hoff).trans hopen)
          exact ⟨e.chain, media', hcm' ▸ hcm, hf⟩
      · exact hhanded ▸ List.subset_append_left _ _
      · exact hwaiting ▸ List.Subset.refl _
      · exact hmap ▸ he
      · exact List.mem_append_right _ List.mem_cons_self
    | inr k =>
      obtain ⟨hfree, hfl⟩ := hrest
      refine ⟨{ hb with awaited := ?_ }, hmap, hseen, hoff, ?_, ?_, fun _ => .inr ⟨?_, k, ?_⟩⟩
      · intro w hwin
        rcases List.mem_append.1 hwin with hwin | hwin
        · exact hb.awaited w hwin
        · obtain rfl := List.mem_singleton.1 hwin
          obtain ⟨c, hc, hcu, -⟩ := hb.flight _ _ hfl
          have hcm := hb.own_media hc hcu (hseen ▸ hm) ((open_congr hoff).trans hopen)
          exact ⟨hfl, hspec, c, hc, hcm⟩
      · exact hhanded ▸ List.Subset.refl _
      · exact hwaiting ▸ List.subset_append_left _ _
      · exact hmap ▸ hfree
      · exact List.mem_append_right _ List.mem_cons_self

theorem Served.mono {s' : State} (h : Served s m) (hmap : s'.media = s.media) (hhanded : s.handed ⊆ s'.handed)
    (hwaiting : s.waiting ⊆ s'.waiting) : Served s' m := by
  obtain ⟨e, he, hin⟩ | ⟨hfree, k, hk⟩ := h
  · exact .inl ⟨e, hmap ▸ he, hhanded hin⟩
  · exact .inr ⟨hmap ▸ hfree, k, hwaiting hk⟩

theorem Bounds.settle (h : Bounds K s) : Bounds K (settle K s) ∧ (settle K s).media = s.media ∧
    ∀ m ∈ retained s, (wanted K m).isSome → Served (settle K s) m := by
  have hfold : ∀ (l : List Member) (s : State), Bounds K s → (∀ m ∈ l, m ∈ s.seen ∧ s.open' m.update = true) →
      Bounds K (l.foldl (settleOne K) s) ∧ (l.foldl (settleOne K) s).media = s.media ∧
      s.handed ⊆ (l.foldl (settleOne K) s).handed ∧ s.waiting ⊆ (l.foldl (settleOne K) s).waiting ∧
      ∀ m ∈ l, (wanted K m).isSome → Served (l.foldl (settleOne K) s) m := by
    intro l
    induction l with
    | nil => exact fun _ h _ => ⟨h, rfl, List.Subset.refl _, List.Subset.refl _, fun _ hm => nomatch hm⟩
    | cons m l ih =>
      intro s h hl
      obtain ⟨hb, hmap, hseen, hoff, hhanded, hwaiting, hserved⟩ := settle_step h (hl m List.mem_cons_self).1
        (hl m List.mem_cons_self).2
      obtain ⟨hb', hmap', hhanded', hwaiting', hall⟩ := ih _ hb fun x hx => by
        obtain ⟨hxs, hxo⟩ := hl x (List.mem_cons_of_mem _ hx)
        exact ⟨hseen ▸ hxs, (open_congr hoff).trans hxo⟩
      refine ⟨hb', hmap'.trans hmap, List.Subset.trans hhanded hhanded', List.Subset.trans hwaiting hwaiting', fun x hx hw => ?_⟩
      rcases List.mem_cons.1 hx with rfl | hx
      · exact (hserved hw).mono hmap' hhanded' hwaiting'
      · exact hall x hx hw
  obtain ⟨hb, hmap, -, -, hall⟩ := hfold (retained s) s h fun m hm => mem_retained hm
  exact ⟨hb, hmap, hall⟩

/-! `finish`: a fetch that was aborted leaves nothing, one that was not leaves what `judge` says. -/

theorem chains_set_old {d : Done} {i : Nat} {c' : Chain} (hc : s.chains[k]? = some c) (hi : s.chains[i]? = some c') :
    ∃ c'', (s.chains.set k { c with done := some d })[i]? = some c'' ∧ c''.update = c'.update ∧ c''.media = c'.media ∧
      c''.speculative = c'.speculative ∧ c''.aborted = c'.aborted ∧ (i ≠ k → c'' = c') ∧ (i = k → c''.done = some d) := by
  by_cases hik : i = k
  · subst hik
    obtain rfl := Option.some.inj (hc.symm.trans hi)
    refine ⟨_, List.getElem?_set_self (List.getElem?_eq_some_iff.1 hc).1, rfl, rfl, rfl, rfl, ?_, fun _ => rfl⟩
    exact fun hne => absurd rfl hne
  · exact ⟨c', by rw [List.getElem?_set_ne (Ne.symm hik), hi], rfl, rfl, rfl, rfl, fun _ => rfl, fun h => absurd h hik⟩

theorem chains_set_new {d : Done} {i : Nat} {c' : Chain} (hc : s.chains[k]? = some c)
    (hi : (s.chains.set k { c with done := some d })[i]? = some c') :
    ∃ c'', s.chains[i]? = some c'' ∧ c'.update = c''.update ∧ c'.media = c''.media ∧
      c'.speculative = c''.speculative ∧ (i ≠ k → c' = c'') ∧ (i = k → c'.done = some d) := by
  by_cases hik : i = k
  · subst hik
    rw [List.getElem?_set_self (List.getElem?_eq_some_iff.1 hc).1] at hi
    obtain rfl := Option.some.inj hi
    exact ⟨c, hc, rfl, rfl, rfl, fun hne => absurd rfl hne, fun _ => rfl⟩
  · rw [List.getElem?_set_ne (Ne.symm hik)] at hi
    exact ⟨c', hi, rfl, rfl, rfl, fun _ => rfl, fun h => absurd h hik⟩

/-- What a fetch that is over came by stays when another one ends. -/
theorem Fetches.set {d : Done} {i : Nat} (hf : Fetches K s.chains i u media fetched) (hc : s.chains[k]? = some c)
    (hd : c.done = none) : Fetches K (s.chains.set k { c with done := some d }) i u media fetched := by
  refine hf.mono fun c' hi hdone => ⟨c', ?_, rfl, rfl, rfl⟩
  obtain ⟨c'', hc'', -, -, -, -, hsame, -⟩ := chains_set_old (d := d) hc hi
  have hik : i ≠ k := by
    rintro rfl
    rw [Option.some.inj (hi.symm.trans hc), hd] at hdone
    cases hdone
  rw [hc'', hsame hik]

/-- A fetch that was aborted is over. -/
theorem Bounds.ended {got : Got} (h : Bounds K s) (hc : s.chains[k]? = some c) (hd : c.done = none)
    (ha : c.aborted = true) (fetched : Option Fetched) :
    Bounds K (({ s with chains := s.chains.set k { c with done := some ⟨got, c.aborted⟩ } } : State).finished k c.update
      fetched) := by
  have hfl : ∀ (u : Nat) (f : Flight), s.inflight.find u = some f → f.chain ≠ k := by
    rintro u f hf rfl
    obtain ⟨c', hc', -, ha', -⟩ := h.flight u f hf
    rw [Option.some.inj (hc'.symm.trans hc), ha] at ha'
    cases ha'
  have hwait : ∀ w ∈ s.waiting, w.chain ≠ k := fun w hw => hfl _ _ (h.awaited w hw).1
  have hstate : ({ s with chains := s.chains.set k { c with done := some ⟨got, c.aborted⟩ } } : State).finished k c.update
      fetched = { s with chains := s.chains.set k { c with done := some ⟨got, c.aborted⟩ } } := by
    have hidle : s.inflight.find c.update ≠ some ⟨c.update, k⟩ := fun hf => hfl _ _ hf rfl
    have hnone : (s.waiting.filter fun w => w.chain = k) = [] :=
      List.filter_eq_nil_iff.2 fun w hw => by simpa using hwait w hw
    have hall : (s.waiting.filter fun w => w.chain ≠ k) = s.waiting :=
      List.filter_eq_self.2 fun w hw => by simpa using hwait w hw
    simp only [State.finished, if_neg hidle, hnone, hall, List.map_nil, List.append_nil]
  rw [hstate]
  refine
    { h with
      flight := ?_, running := ?_, cached := ?_, own := ?_, covered := ?_, dropped := ?_, awaited := ?_, handed := ?_ }
  · intro u f hf
    obtain ⟨c', hc', hrest⟩ := h.flight u f hf
    obtain ⟨c'', hc'', -, -, -, -, hsame, -⟩ := chains_set_old (d := ⟨got, c.aborted⟩) hc hc'
    exact ⟨c', by rw [hc'', hsame (hfl u f hf)], hrest⟩
  · intro i c' hi hdone hab
    obtain ⟨c'', hc'', -, -, -, hsame, hset⟩ := chains_set_new hc hi
    have hik : i ≠ k := fun hik => by
      rw [hset hik] at hdone
      cases hdone
    obtain rfl := hsame hik
    exact h.running i c' hc'' hdone hab
  · intro u e he
    obtain ⟨media', hf⟩ := h.cached u e he
    exact ⟨media', hf.set hc hd⟩
  · intro i c' hi hopen
    obtain ⟨c'', hc'', hu, hm, -⟩ := chains_set_new hc hi
    rw [hu, hm]
    exact h.own i c'' hc'' (hu ▸ hopen)
  · intro u e he
    obtain hf | ⟨hf, hcached, c', hc', hu, hdone⟩ := h.covered u e he
    · exact .inl hf
    · obtain ⟨c'', hc'', hu', -, -, -, hsame, -⟩ := chains_set_old (d := ⟨got, c.aborted⟩) hc hc'
      have hek : e.chain ≠ k := fun hek => by
        rw [hek] at hc'
        rw [Option.some.inj (hc'.symm.trans hc), hd] at hdone
        cases hdone
      exact .inr ⟨hf, hcached, c'', hc'', hu'.trans hu, by rwa [hsame hek]⟩
  · intro u hu
    obtain ⟨hs, hcached, hf⟩ := h.dropped u hu
    refine ⟨hs, fun e he c' hi => ?_, fun f hff c' hi => ?_⟩
    · obtain ⟨c'', hc'', -, -, hspec, -⟩ := chains_set_new hc hi
      exact hspec.trans (hcached e he c'' hc'')
    · obtain ⟨c'', hc'', -, -, hspec, -⟩ := chains_set_new hc hi
      exact hspec.trans (hf f hff c'' hc'')
  · intro w hw
    obtain ⟨hf, hs, c', hc', hcm⟩ := h.awaited w hw
    obtain ⟨c'', hc'', -, hm, -⟩ := chains_set_old (d := ⟨got, c.aborted⟩) hc hc'
    exact ⟨hf, hs, c'', hc'', by rw [hcm, hm]⟩
  · intro x hx file hfile
    obtain ⟨i, media', hxm, hf⟩ := h.handed x hx file hfile
    exact ⟨i, media', hxm, hf.set hc hd⟩

/-- What `judge` leaves of the speculative set when the fetch of `u` is over, whether that is kept or not. -/
structure Judged (K : Settings) (s : State) (u : Nat) (keep : Bool) (spec : Table Speculative.update)
    (abandoned : List Nat) : Prop where
  members : spec.rows.length ≤ speculativeMembers
  bytes : (spec.rows.map (·.reserved)).sum ≤ speculativeChains * K.limit
  other : ∀ v, v ≠ u → spec.find v = s.spec.find v
  same : ∀ e, spec.find u = some e → keep = true ∧ ∃ e', s.spec.find u = some e' ∧ e'.chain = e.chain
  given : abandoned = s.abandoned ∨
    abandoned = s.abandoned ++ [u] ∧ (s.spec.find u).isSome ∧ spec.find u = none ∧ keep = false

theorem Judged.none {keep : Bool} {spec : Table Speculative.update} {abandoned : List Nat} {v : Nat}
    (h : Judged K s u keep spec abandoned) (hv : s.spec.find v = none) : spec.find v = none := by
  by_cases hvu : v = u
  · subst hvu
    cases hx : spec.find v with
    | none => rfl
    | some e =>
      obtain ⟨-, e', he', -⟩ := h.same e hx
      rw [hv] at he'
      cases he'
  · exact (h.other v hvu).trans hv

/-- A fetch that was not aborted is over. -/
theorem Bounds.complete {got : Got} {keep : Bool} {spec : Table Speculative.update} {abandoned : List Nat}
    (h : Bounds K s) (hc : s.chains[k]? = some c) (hd : c.done = none) (ha : c.aborted = false)
    (hj : Judged K s c.update keep spec abandoned) (hfile : ∀ file, fetched = some file → Whole K c.media got file) :
    Bounds K (({ s with
      spec, abandoned
      chains := s.chains.set k { c with done := some ⟨got, c.aborted⟩ }
      media := if keep then s.media.put ⟨c.update, fetched, k⟩ else s.media } : State).finished k c.update
        fetched) := by
  have hrun : s.inflight.find c.update = some ⟨c.update, k⟩ := h.running k c hc hd ha
  have hfree : s.media.find c.update = none := h.apart c.update (by rw [hrun]; rfl)
  have hself : Fetches K (s.chains.set k { c with done := some ⟨got, c.aborted⟩ }) k c.update c.media fetched :=
    ⟨_, got, List.getElem?_set_self (List.getElem?_eq_some_iff.1 hc).1, rfl, rfl, by rw [ha], hfile⟩
  -- What is in flight of another update is another fetch.
  have hother : ∀ (u : Nat) (f : Flight), s.inflight.find u = some f → u ≠ c.update → f.chain ≠ k := by
    rintro u f hf hu rfl
    obtain ⟨c', hc', hcu, -⟩ := h.flight u f hf
    exact hu (by rw [← hcu, Option.some.inj (hc'.symm.trans hc)])
  have hmedia : ∀ v, v ≠ c.update →
      (if keep then s.media.put ⟨c.update, fetched, k⟩ else s.media).find v = s.media.find v := by
    intro v hv
    split
    · exact Table.find_put_other s.media ⟨c.update, fetched, k⟩ hv
    · rfl
  have hown : ∀ e, (if keep then s.media.put ⟨c.update, fetched, k⟩ else s.media).find c.update = some e →
      keep = true ∧ e = ⟨c.update, fetched, k⟩ := by
    intro e he
    split at he
    · rw [Table.find_put_self s.media ⟨c.update, fetched, k⟩] at he
      exact ⟨by assumption, (Option.some.inj he).symm⟩
    · rw [hfree] at he
      cases he
  have hwait : ∀ w ∈ s.waiting, w.chain ≠ k → w.member.update ≠ c.update := by
    intro w hw hk hu
    have hf := (h.awaited w hw).1
    rw [hu, hrun] at hf
    exact hk (congrArg Flight.chain (Option.some.inj hf)).symm
  unfold State.finished
  rw [if_pos hrun]
  refine ⟨hj.members, hj.bytes, h.once, ?_, ?_, ?_, ?_, ?_, ?_, ?_, ?_, ?_, ?_⟩
  · intro u f hf
    obtain ⟨hu, hf⟩ := Table.find_erase_some hf
    obtain ⟨c', hc', hrest⟩ := h.flight u f hf
    obtain ⟨c'', hc'', -, -, -, -, hsame, -⟩ := chains_set_old (d := ⟨got, c.aborted⟩) hc hc'
    exact ⟨c', hsame (hother u f hf hu) ▸ hc'', hrest⟩
  · intro i c' hi hdone hab
    obtain ⟨c'', hc'', -, -, -, hsame, hset⟩ := chains_set_new hc hi
    have hik : i ≠ k := fun hik => by
      rw [hset hik] at hdone
      cases hdone
    obtain rfl := hsame hik
    have hf := h.running i c' hc'' hdone hab
    have hu : c'.update ≠ c.update := fun hu => by
      rw [hu, hrun] at hf
      exact hik (congrArg Flight.chain (Option.some.inj hf)).symm
    exact (Table.find_erase_other _ hu).trans hf
  · intro u hu
    obtain ⟨f, hf⟩ := Option.isSome_iff_exists.1 hu
    obtain ⟨hne, hf⟩ := Table.find_erase_some hf
    exact (hmedia u hne).trans (h.apart u (by rw [hf]; rfl))
  · intro u e he
    by_cases hu : u = c.update
    · subst hu
      obtain ⟨-, rfl⟩ := hown e he
      exact ⟨c.media, hself⟩
    · obtain ⟨media', hf⟩ := h.cached u e ((hmedia u hu).symm.trans he)
      exact ⟨media', hf.set hc hd⟩
  · intro i c' hi hopen
    obtain ⟨c'', hc'', hu, hm, -⟩ := chains_set_new hc hi
    rw [hu, hm]
    exact h.own i c'' hc'' (hu ▸ hopen)
  · intro u e he
    by_cases hu : u = c.update
    · subst hu
      obtain ⟨rfl, e', he', hchain⟩ := hj.same e he
      have hek : e.chain = k := by
        obtain hf | ⟨hf, -⟩ := h.covered _ e' he'
        · rw [hrun] at hf
          rw [← hchain]
          exact (congrArg Flight.chain (Option.some.inj hf)).symm
        · rw [hrun] at hf
          cases hf
      refine .inr ⟨(Table.find_erase s.inflight _ _).trans (if_pos rfl), ?_, ?_⟩
      · have hput := Table.find_put_self s.media ⟨c.update, fetched, k⟩
        exact congrArg Option.isSome hput
      · subst hek
        exact ⟨_, List.getElem?_set_self (List.getElem?_eq_some_iff.1 hc).1, rfl, rfl⟩
    · obtain hf | ⟨hf, hcached, c', hc', hcu, hdone⟩ := h.covered u e ((hj.other u hu).symm.trans he)
      · exact .inl ((Table.find_erase_other _ hu).trans hf)
      · obtain ⟨c'', hc'', hu', -, -, -, hsame, hset⟩ := chains_set_old (d := ⟨got, c.aborted⟩) hc hc'
        refine .inr ⟨(Table.find_erase_other _ hu).trans hf, ?_, c'', hc'', hu'.trans hcu, ?_⟩
        · exact (congrArg Option.isSome (hmedia u hu)).trans hcached
        · by_cases hek : e.chain = k
          · rw [hset hek]
            rfl
          · rwa [hsame hek]
  · intro u hu
    have hchain : ∀ (i : Nat) (c' : Chain), (s.chains.set k { c with done := some ⟨got, c.aborted⟩ })[i]? = some c' →
        ∃ c'' : Chain, s.chains[i]? = some c'' ∧ c'.speculative = c''.speculative := fun i c' hi => by
      obtain ⟨c'', hc'', -, -, hspec, -⟩ := chains_set_new hc hi
      exact ⟨c'', hc'', hspec⟩
    have hnew : u ∈ s.abandoned ∨ u = c.update ∧ spec.find u = none ∧ keep = false := by
      obtain rfl | ⟨rfl, -, hs, hk⟩ := hj.given
      · exact .inl hu
      · exact (List.mem_append.1 hu).imp_right fun hu => by
          obtain rfl := List.mem_singleton.1 hu
          exact ⟨rfl, hs, hk⟩
    obtain hu | ⟨rfl, hs, rfl⟩ := hnew
    · obtain ⟨hs, hcached, hf⟩ := h.dropped u hu
      refine ⟨?_, fun e he c' hi => ?_, fun f hff c' hi => ?_⟩
      · exact hj.none hs
      · obtain ⟨c'', hc'', hspec⟩ := hchain _ _ hi
        by_cases huc : u = c.update
        · subst huc
          obtain ⟨-, rfl⟩ := hown e he
          exact hspec.trans (hf _ hrun c'' hc'')
        · exact hspec.trans (hcached e ((hmedia u huc).symm.trans he) c'' hc'')
      · obtain ⟨c'', hc'', hspec⟩ := hchain _ _ hi
        exact hspec.trans (hf f (Table.find_erase_some hff).2 c'' hc'')
    · refine ⟨hs, fun e he => (by cases (hown e he).1), fun f hf => ?_⟩
      exact absurd rfl (Table.find_erase_some hf).1
  · intro w hw
    obtain ⟨hw, hk⟩ := List.mem_filter.1 hw
    have hk : w.chain ≠ k := by simpa using hk
    obtain ⟨hf, hs, c', hc', hcm⟩ := h.awaited w hw
    have hu := hwait w hw hk
    obtain ⟨c'', hc'', -, hm, -⟩ := chains_set_old (d := ⟨got, c.aborted⟩) hc hc'
    exact ⟨(Table.find_erase_other _ hu).trans hf, (hj.other _ hu).trans hs, c'', hc'', by rw [hcm, hm]⟩
  · intro x hx file hxf
    rcases List.mem_append.1 hx with hx | hx
    · obtain ⟨i, media', hxm, hf⟩ := h.handed x hx file hxf
      exact ⟨i, media', hxm, hf.set hc hd⟩
    · obtain ⟨w, hw, rfl⟩ := List.mem_map.1 hx
      obtain ⟨hw, hk⟩ := List.mem_filter.1 hw
      obtain ⟨hf, -, c', hc', hcm⟩ := h.awaited w hw
      rw [show w.chain = k by simpa using hk] at hf hc'
      obtain rfl := Option.some.inj (hc.symm.trans hc')
      obtain ⟨c', hc', hu, -⟩ := h.flight _ _ hf
      obtain rfl := Option.some.inj (hc.symm.trans hc')
      exact ⟨k, c.media, hcm, by rw [← hu]; exact hself⟩
  · intro o ho u hu
    obtain ⟨hs, hab, hcached, hf, hseen⟩ := h.confirmed o ho u hu
    refine ⟨?_, ?_, fun hm => ?_, fun hff => ?_, hseen⟩
    · exact hj.none hs
    · obtain rfl | ⟨rfl, hsome, -⟩ := hj.given
      · exact hab
      · intro hin
        rcases List.mem_append.1 hin with hin | hin
        · exact hab hin
        · rw [← List.mem_singleton.1 hin, hs] at hsome
          cases hsome
    · by_cases huc : u = c.update
      · exact hf (by rw [huc, hrun]; rfl)
      · exact hcached ((congrArg Option.isSome (hmedia u huc)).symm.trans hm)
    · obtain ⟨f, hff⟩ := Option.isSome_iff_exists.1 hff
      exact hf (by rw [(Table.find_erase_some hff).2]; rfl)

theorem fileOf_whole {got : Got} {file : Fetched} (hf : fileOf K media got = some file) : Whole K media got file := by
  cases got with
  | oversize => cases hf
  | failed => cases hf
  | body bytes =>
    by_cases hlen : bytes.length > K.limit
    · rw [fileOf, if_pos hlen] at hf
      cases hf
    · rw [fileOf, if_neg hlen] at hf
      obtain rfl := Option.some.inj hf
      exact ⟨rfl, rfl, Nat.le_of_not_lt hlen⟩

/-- A verdict changes the speculative set and what was given up, and no more. -/
theorem judge_frame (K : Settings) (s : State) (u : Nat) (media : Media) (got : Got) (ended : Bool) :
    (judge K s u media got ended).1 = { s with
      spec := (judge K s u media got ended).1.spec
      abandoned := (judge K s u media got ended).1.abandoned } := by
  simp only [judge]
  split <;> split <;> (try split) <;> (try split) <;> rfl

/-- A fetch that was aborted is not kept, and can only leave the speculative set. -/
theorem judge_ended {got : Got} {ended : Bool} (hended : ended = true) {r : State × Option Fetched × Bool}
    (hr : judge K s u media got ended = r) :
    r.2.2 = false ∧ (r.1.spec = s.spec ∨ r.1.spec = s.spec.erase u) ∧ r.1.abandoned = s.abandoned := by
  subst hended hr
  have hs : ∀ s' : State, (if isOversize K got then { s with spec := s.spec.erase u } else s) = s' →
      (s'.spec = s.spec ∨ s'.spec = s.spec.erase u) ∧ s'.abandoned = s.abandoned := by
    rintro s' rfl
    split
    · exact ⟨.inr rfl, rfl⟩
    · exact ⟨.inl rfl, rfl⟩
  simp only [judge, if_true]
  split
  · exact ⟨rfl, hs _ rfl⟩
  · exact ⟨rfl, hs _ rfl⟩

/-- The update leaves the speculative set and is not given up. -/
theorem Bounds.judged_erase (h : Bounds K s) (u : Nat) (keep : Bool) :
    Judged K s u keep (s.spec.erase u) s.abandoned where
  members := Nat.le_trans List.filter_sublist.length_le h.members
  bytes := Nat.le_trans (sum_reserved_le List.filter_sublist) h.bytes
  other _ hv := Table.find_erase_other _ hv
  same _ he := absurd rfl (Table.find_erase_some he).1
  given := .inl rfl

theorem Bounds.judged_stay (h : Bounds K s) (u : Nat) : Judged K s u true s.spec s.abandoned where
  members := h.members
  bytes := h.bytes
  other _ _ := rfl
  same e he := ⟨rfl, e, he, rfl⟩
  given := .inl rfl

/-- A verdict keeps within the budget, and what it hands on is the whole body. -/
theorem Bounds.judge (h : Bounds K s) {got : Got} {ended : Bool} (hended : ended = false)
    {r : State × Option Fetched × Bool} (hr : judge K s u media got ended = r) :
    Judged K s u r.2.2 r.1.spec r.1.abandoned ∧ ∀ file, r.2.1 = some file → Whole K media got file := by
  subst hended hr
  by_cases hover : isOversize K got = true
  · have hnone : fileOf K media got = none := by
      cases got with
      | oversize => rfl
      | failed => rfl
      | body bytes => exact if_pos (by simpa [isOversize] using hover)
    simp only [Speculation.judge, hover, hnone, if_true]
    exact ⟨h.judged_erase u true, fun _ hf => by cases hf⟩
  · cases hfile : fileOf K media got with
    | none =>
      simp only [Speculation.judge, hover, hfile]
      exact ⟨h.judged_stay u, fun _ hf => by cases hf⟩
    | some file =>
      cases hspec : s.spec.find u with
      | none =>
        simp only [Speculation.judge, hover, hfile, Bool.false_eq_true, if_false, hspec]
        exact ⟨h.judged_stay u, fun _ hf => fileOf_whole (hfile.trans hf)⟩
      | some member =>
        simp only [Speculation.judge, hover, hfile, Bool.false_eq_true, if_false, hspec]
        have hkey : member.update = u := Table.find_key hspec
        subst hkey
        split
        · -- Over the budget: the member is given up, and nothing is handed on.
          have herase := Table.erase_put s.spec { member with reserved := file.bytes.length }
          refine ⟨?_, fun _ hf => by cases hf⟩
          dsimp only
          rw [herase]
          refine { h.judged_erase member.update false with given := .inr ⟨rfl, ?_, ?_, rfl⟩ }
          · rw [hspec]
            rfl
          · exact (Table.find_erase _ _ _).trans (if_pos rfl)
        · rename_i hroom
          refine ⟨⟨?_, Nat.le_of_not_lt hroom, fun v hv => ?_, fun e he => ?_, .inl rfl⟩, fun _ hf => ?_⟩
          · refine Nat.le_trans (Nat.le_of_eq (Table.length_put ?_)) h.members
            rw [hspec]
            rfl
          · exact Table.find_put_other s.spec { member with reserved := file.bytes.length } hv
          · rw [Table.find_put_self s.spec { member with reserved := file.bytes.length }] at he
            obtain rfl := Option.some.inj he
            exact ⟨rfl, member, hspec, rfl⟩
          · exact fileOf_whole (hfile.trans hf)

/-- What is left when a fetch is over, whichever way it ended. -/
theorem finish_some {s' : State} {file : Option File} (hs : finish K s k file = some s') :
    ∃ c : Chain, s.chains[k]? = some c ∧ c.done = none ∧ ∀ r, judge K s c.update c.media (fetchMedia K file) c.aborted = r →
      s' = ({ s with
        spec := r.1.spec
        abandoned := r.1.abandoned
        chains := s.chains.set k { c with done := some ⟨fetchMedia K file, c.aborted⟩ }
        media := if r.2.2 then s.media.put ⟨c.update, r.2.1, k⟩ else s.media } : State).finished k c.update r.2.1 := by
  obtain ⟨c, hc, hs⟩ := Option.bind_eq_some_iff.1 hs
  split at hs
  · cases hs
  rename_i hd
  refine ⟨c, hc, by simpa using hd, ?_⟩
  intro r hr
  have hframe := judge_frame K s c.update c.media (fetchMedia K file) c.aborted
  extract_lets got at hs
  rw [show judge K s c.update c.media got c.aborted = r from hr] at hs
  rw [hr] at hframe
  obtain ⟨s₁, fetched, keep⟩ := r
  obtain rfl := Option.some.inj hs
  dsimp only at hframe ⊢
  rw [hframe]
  cases keep <;> rfl

theorem Bounds.finish {s' : State} {file : Option File} (h : Bounds K s) (hs : finish K s k file = some s') :
    Bounds K s' := by
  obtain ⟨c, hc, hd, hs⟩ := finish_some hs
  obtain ⟨r, hr⟩ : ∃ r, Speculation.judge K s c.update c.media (fetchMedia K file) c.aborted = r := ⟨_, rfl⟩
  rw [hs r hr]
  by_cases ha : c.aborted = true
  · obtain ⟨hkeep, hspec, hab⟩ := judge_ended ha hr
    rw [hkeep, if_neg Bool.false_ne_true, hab]
    rcases hspec with hspec | hspec
    · rw [hspec]
      exact h.ended hc hd ha _
    · rw [hspec]
      exact (h.release c.update).ended hc hd ha _
  · have ha : c.aborted = false := by simpa using ha
    obtain ⟨hj, hfile⟩ := h.judge ha hr
    exact h.complete hc hd ha hj hfile

theorem Bounds.unlaned {s' : State} (h : Bounds K s) (hs : unlaned s k = some s') : Bounds K s' := by
  obtain ⟨c, hc, hs⟩ := Option.bind_eq_some_iff.1 hs
  split at hs
  · cases hs
  rename_i hd
  obtain ⟨hd, ha⟩ : c.done = none ∧ c.aborted = true := by simpa using hd
  obtain rfl := Option.some.inj hs
  rw [← ha]
  exact h.ended hc hd ha none

/-! `dropConfirmed` -/

theorem Bounds.confirm (h : Bounds K s) {offset : Nat} (hon : s.offset.all (· ≤ offset)) :
    Bounds K (dropConfirmed s offset) := by
  have hfind : ∀ {α : Type} {key : α → Nat} (t : Table key) (u : Nat) (a : α),
      (t.restrict fun update => offset ≤ update).find u = some a → offset ≤ u ∧ t.find u = some a := by
    intro α key t u a ha
    rw [Table.find_restrict] at ha
    by_cases hu : offset ≤ u
    · exact ⟨hu, by rwa [if_pos (by simpa using hu)] at ha⟩
    · rw [if_neg (by simpa using hu)] at ha
      cases ha
  have hkeep : ∀ {α : Type} {key : α → Nat} (t : Table key) (u : Nat), offset ≤ u →
      (t.restrict fun update => offset ≤ update).find u = t.find u := fun t u hu => by
    rw [Table.find_restrict, if_pos (by simpa using hu)]
  have hnone : ∀ {α : Type} {key : α → Nat} (t : Table key) (u : Nat), t.find u = none →
      (t.restrict fun update => offset ≤ update).find u = none := fun t u hu => by
    rw [Table.find_restrict, hu, ite_self]
  have hdrop : ∀ {α : Type} {key : α → Nat} (t : Table key) (u : Nat), u < offset →
      (t.restrict fun update => offset ≤ update).find u = none := fun t u hu => by
    rw [Table.find_restrict, if_neg (by simpa using hu)]
  refine ⟨?_, ?_, ?_, h.flight, h.running, ?_, ?_, ?_, ?_, ?_, ?_, h.handed, ?_⟩
  · exact Nat.le_trans List.filter_sublist.length_le h.members
  · exact Nat.le_trans (sum_reserved_le List.filter_sublist) h.bytes
  · exact h.once.sublist (List.filter_sublist.map _)
  · exact fun u hu => hnone _ u (h.apart u hu)
  · exact fun u e he => h.cached u e (hfind _ u e he).2
  · intro k c hc hopen
    have hle : offset ≤ c.update := by simpa [State.open', dropConfirmed] using hopen
    have hopen' : s.open' c.update = true := by
      unfold State.open'
      cases ho : s.offset with
      | none => rfl
      | some o =>
        rw [ho] at hon
        simpa using Nat.le_trans (by simpa using hon) hle
    obtain ⟨m, hm, hmu, hmm⟩ := h.own k c hc hopen'
    exact ⟨m, List.mem_filter.2 ⟨hm, by simpa [hmu] using hle⟩, hmu, hmm⟩
  · intro u e he
    obtain ⟨hu, he⟩ := hfind _ u e he
    obtain hf | ⟨hf, hcached, hc⟩ := h.covered u e he
    · exact .inl hf
    · exact .inr ⟨hf, (congrArg Option.isSome (hkeep s.media u hu)).trans hcached, hc⟩
  · intro u hu
    obtain ⟨hs, hcached, hf⟩ := h.dropped u (List.mem_of_mem_filter hu)
    exact ⟨hnone _ u hs, fun e he => hcached e (hfind _ u e he).2, hf⟩
  · intro w hw
    obtain ⟨hf, hs, hc⟩ := h.awaited w hw
    exact ⟨hf, hnone _ _ hs, hc⟩
  · intro o ho u hu
    obtain rfl := Option.some.inj ho
    refine ⟨hdrop _ u hu, fun hin => ?_, fun hm => ?_, fun hf => ?_, fun hin => ?_⟩
    · exact Nat.not_le_of_lt hu (by simpa using (List.mem_filter.1 hin).2)
    · exact absurd hm (by rw [show (dropConfirmed s offset).media.find u = none from hdrop _ u hu]; simp)
    · obtain ⟨f, hf⟩ := Option.isSome_iff_exists.1 hf
      have hfu : f.update = u := Table.find_key hf
      exact List.mem_append_right _ (List.mem_map.2
        ⟨f, List.mem_filter.2 ⟨Table.find_mem hf, by simpa [hfu] using hu⟩, hfu⟩)
    · obtain hin | hin := hin
      · obtain ⟨m, hm, rfl⟩ := List.mem_map.1 hin
        exact absurd hu (Nat.not_lt_of_le (by simpa using (List.mem_filter.1 hm).2))
      · obtain ⟨p, hp, rfl⟩ := List.mem_map.1 hin
        exact absurd hu (Nat.not_lt_of_le (by simpa using (List.mem_filter.1 hp).2))

theorem Bounds.rememberAll (h : Bounds K s) (updates : List Member) (now : Nat) :
    Bounds K (updates.foldl (fun s m => Speculation.remember s now m) s) := by
  induction updates generalizing s with
  | nil => exact h
  | cons m l ih => exact ih (h.remember now m)

/-- What holds after every step, whichever steps were made and in whatever order. -/
theorem bounds_inductive : (fetching K).Inductive (Bounds K) where
  init s hs := by
    obtain rfl : s = {} := hs
    exact bounds_start
  step s l s' h hst := by
    cases l with
    | remember updates now =>
      obtain rfl := Option.some.inj hst
      exact h.rememberAll updates now
    | eager now =>
      obtain rfl := Option.some.inj hst
      exact h.startEager now
    | settle =>
      obtain rfl := Option.some.inj hst
      exact h.settle.1
    | finish k file => exact h.finish hst
    | unlaned k => exact h.unlaned hst
    | confirm offset =>
      change (if s.offset.all (· ≤ offset) then some (dropConfirmed s offset) else none) = some s' at hst
      split at hst
      · rename_i hon
        obtain rfl := Option.some.inj hst
        exact h.confirm hon
      · cases hst

/-! ## What a run comes to -/

theorem settleOne_abandoned (s : State) (m : Member) : (settleOne K s m).abandoned = s.abandoned := by
  unfold settleOne
  cases wanted K m with
  | none => rfl
  | some media =>
    simp only [mediaFor, Option.isNone_none, if_true]
    cases s.media.find m.update with
    | some e => rfl
    | none => cases s.inflight.find m.update <;> rfl

theorem settle_abandoned (s : State) : (settle K s).abandoned = s.abandoned := by
  have hfold : ∀ (l : List Member) (s : State), (l.foldl (settleOne K) s).abandoned = s.abandoned := by
    intro l
    induction l with
    | nil => exact fun _ => rfl
    | cons m l ih => exact fun s => (ih _).trans (settleOne_abandoned s m)
  exact hfold _ s

/-- The batch that settles is served by a fetch that was not begun ahead, over or still running. -/
def Refetched (K : Settings) (s : State) (m : Member) : Prop :=
  (∃ (e : Cached) (c : Chain), s.media.find m.update = some e ∧ s.chains[e.chain]? = some c ∧
    c.speculative = false ∧ (m, e.fetched) ∈ (settle K s).handed) ∨
  ∃ (k : Nat) (c : Chain), ⟨m, k⟩ ∈ (settle K s).waiting ∧ (settle K s).chains[k]? = some c ∧
    c.update = m.update ∧ c.speculative = false ∧ c.aborted = false ∧ c.done = none

theorem Bounds.refetched (h : Bounds K s) (hm : m ∈ retained s) (hw : (wanted K m).isSome)
    (hu : m.update ∈ s.abandoned) : Refetched K s m := by
  obtain ⟨hb, hmap, hserved⟩ := h.settle
  obtain ⟨e, he, hin⟩ | ⟨-, k, hk⟩ := hserved m hm hw
  · have he : s.media.find m.update = some e := hmap ▸ he
    obtain ⟨_, c, _, hc, -⟩ := h.cached _ e he
    exact .inl ⟨e, c, he, hc, (h.dropped _ hu).2.1 e he c hc, hin⟩
  · have hfl := (hb.awaited _ hk).1
    obtain ⟨c, hc, hcu, ha, hd⟩ := hb.flight _ _ hfl
    have hspec := (hb.dropped m.update (settle_abandoned s ▸ hu)).2.2 _ hfl c hc
    exact .inr ⟨k, c, hk, hc, hcu, hspec, ha, hd⟩

/-- Nothing of the update is kept. -/
def Gone (s : State) (u : Nat) : Prop :=
  u ∉ s.seen.map (·.update) ∧ s.media.find u = none ∧ s.spec.find u = none ∧ u ∉ s.abandoned ∧
    u ∉ s.sighted.map (·.1)

instance : Decidable (Gone s u) := inferInstanceAs (Decidable (_ ∧ _ ∧ _ ∧ _ ∧ _))

theorem dropConfirmed_gone {offset : Nat} (hu : u < offset) : Gone (dropConfirmed s offset) u := by
  refine ⟨fun hin => ?_, ?_, ?_, fun hin => ?_, fun hin => ?_⟩
  · obtain ⟨m, hm, rfl⟩ := List.mem_map.1 hin
    exact absurd hu (Nat.not_lt_of_le (by simpa using (List.mem_filter.1 hm).2))
  · exact (Table.find_restrict _ _ _).trans (if_neg (by simpa using hu))
  · exact (Table.find_restrict _ _ _).trans (if_neg (by simpa using hu))
  · exact absurd hu (Nat.not_lt_of_le (by simpa using (List.mem_filter.1 hin).2))
  · obtain ⟨p, hp, rfl⟩ := List.mem_map.1 hin
    exact absurd hu (Nat.not_lt_of_le (by simpa using (List.mem_filter.1 hp).2))

/-- Whatever was remembered, begun, finished, settled and confirmed, and in whatever order. -/
theorem fetches_bounded (K : Settings) {s : State} (hs : (fetching K).Reachable s) :
    s.spec.rows.length ≤ speculativeMembers ∧ reservedBytes s ≤ speculativeChains * K.limit ∧
    (∀ (i j : Nat) (c d : Chain), s.chains[i]? = some c → s.chains[j]? = some d → c.update = d.update →
      c.done = none → d.done = none → c.aborted = false → d.aborted = false → i = j) ∧
    (∀ h ∈ s.handed, ∀ file, h.2 = some file → ∃ (k : Nat) (c : Chain), s.chains[k]? = some c ∧
      c.update = h.1.update ∧ h.1.media = some c.media ∧ c.done = some ⟨.body file.bytes, false⟩ ∧
      file = ⟨file.bytes, c.media.mime, c.media.fileName⟩ ∧ file.bytes.length ≤ K.limit) ∧
    (∀ m ∈ retained s, (wanted K m).isSome → m.update ∈ s.abandoned → Refetched K s m) ∧
    (∀ (o : Nat) (s' : State), exec K s (.confirm o) = some s' → ∀ u < o, Gone s' u) ∧
    (∀ o, s.offset = some o → ∀ u < o, s.spec.find u = none ∧ u ∉ s.abandoned ∧
      ((s.media.find u).isSome → u ∈ s.late) ∧
      (u ∈ s.seen.map (·.update) ∨ u ∈ s.sighted.map (·.1) → u ∈ s.repeated) ∧
      u ∉ (retained s).map (·.update)) := by
  have h := bounds_inductive.reachable s hs
  refine ⟨h.members, h.bytes, ?_, ?_, fun m hm hw hu => h.refetched hm hw hu, ?_, ?_⟩
  · intro i j c d hc hd hu hcd hdd hca hda
    have hi := h.running i c hc hcd hca
    have hj := h.running j d hd hdd hda
    rw [hu, hj] at hi
    exact congrArg Flight.chain (Option.some.inj hi).symm
  · intro x hx file hfile
    obtain ⟨k, media, hmedia, c, got, hc, hu, rfl, hd, hwhole⟩ := h.handed x hx file hfile
    obtain ⟨rfl, hshape, hlen⟩ := hwhole file hfile
    exact ⟨k, c, hc, hu, hmedia, hd, hshape, hlen⟩
  · intro o s' hst u hu
    change (if s.offset.all (· ≤ o) then some (dropConfirmed s o) else none) = some s' at hst
    split at hst
    · obtain rfl := Option.some.inj hst
      exact dropConfirmed_gone hu
    · cases hst
  · intro o ho u hu
    obtain ⟨hspec, hab, hmedia, -, hseen⟩ := h.confirmed o ho u hu
    refine ⟨hspec, hab, hmedia, hseen, fun hin => ?_⟩
    obtain ⟨m, hm, rfl⟩ := List.mem_map.1 hin
    exact open_of_lt ho (mem_retained hm).2 hu

def settings : Settings := ⟨100, 1000⟩

def album : Member := ⟨1, some ⟨"f1", 40, "image/jpeg", some "a.jpg"⟩⟩

/-- A member of an album is begun ahead, its fetch ends, and the batch settles. -/
def served : List Step :=
  [.remember [album] 0, .eager 10, .finish 0 (some ⟨some 3, .whole [7, 8, 9]⟩), .settle]

theorem served_bounded : ∃ s, (fetching settings).Reachable s ∧
    s.handed = [(album, some ⟨[7, 8, 9], "image/jpeg", some "a.jpg"⟩)] ∧ reservedBytes s ≤ 400 := by
  have hplay : (LTS.play (exec settings) {} served).any
      (fun s => s.handed = [(album, some ⟨[7, 8, 9], "image/jpeg", some "a.jpg"⟩)]) = true := by decide +kernel
  obtain ⟨s, hs, hh⟩ := Option.any_eq_true _ _ |>.1 hplay
  have hreach : (fetching settings).Reachable s := LTS.reachable_of_play rfl hs
  exact ⟨s, hreach, of_decide_eq_true hh, (fetches_bounded settings hreach).2.1⟩

/-- An update that was confirmed is seen again, or is cached by the fetch that was under way. -/
theorem confirmed_remains :
    (∃ s, (fetching settings).Reachable s ∧ s.offset = some 2 ∧ album ∈ s.seen ∧ ¬ Gone s 1) ∧
    ∃ s, (fetching settings).Reachable s ∧ s.offset = some 2 ∧ (s.media.find 1).isSome ∧ ¬ Gone s 1 := by
  constructor
  · have hplay : (LTS.play (exec settings) {} [.remember [album] 0, .confirm 2, .remember [album] 20]).any
        (fun s => s.offset = some 2 ∧ album ∈ s.seen ∧ ¬ Gone s 1) = true := by decide +kernel
    obtain ⟨s, hs, hrest⟩ := Option.any_eq_true _ _ |>.1 hplay
    exact ⟨s, LTS.reachable_of_play rfl hs, of_decide_eq_true hrest⟩
  · have hplay : (LTS.play (exec settings) {}
        [.remember [album] 0, .eager 10, .confirm 2, .finish 0 (some ⟨some 3, .whole [7, 8, 9]⟩)]).any
        (fun s => s.offset = some 2 ∧ (s.media.find 1).isSome ∧ ¬ Gone s 1) = true := by decide +kernel
    obtain ⟨s, hs, hrest⟩ := Option.any_eq_true _ _ |>.1 hplay
    exact ⟨s, LTS.reachable_of_play rfl hs, of_decide_eq_true hrest⟩

end CarbonRuntime.Adapters.Telegram.Speculation
