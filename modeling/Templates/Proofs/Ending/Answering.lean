import Templates.Proofs.Ending.Elaborated
import Templates.Proofs.Ending.Nesting

/-!
# Requests that get their answer

A front end that passes on its chain cannot nest elaborations deeper than the recursion limit. So if
the programs that go on with instances do not nest without bound, each of its requests gets an
answer (`Service.answering`).

The induction is on what is left of this bound, then on what is left of the chain, then on the
program. When instances are released, each of them that goes on has ended afterwards, and all of
them were there when the releases began.
-/

namespace Templates

namespace Service

variable {σ α : Type} {svc : Service σ} {m₀ : Machine σ α} {P Q : Machine σ α → Prop} {k n : Nat}

/-- At the moment `n` or later the machine is as described, if it has not halted. -/
def Comes (svc : Service σ) (m₀ : Machine σ α) (n : Nat) (P : Machine σ α → Prop) : Prop :=
  ∃ k, n ≤ k ∧ ((∃ h, (svc.after k m₀).Halted h) ∨ P (svc.after k m₀))

namespace Comes

theorem here (h : P (svc.after n m₀)) : svc.Comes m₀ n P := ⟨n, Nat.le_refl n, .inr h⟩

theorem halted {h : Halt} (hh : (svc.after n m₀).Halted h) : svc.Comes m₀ n P :=
  ⟨n, Nat.le_refl n, .inl ⟨h, hh⟩⟩

theorem later (hk : n ≤ k) (h : svc.Comes m₀ k P) : svc.Comes m₀ n P := by
  obtain ⟨j, hj, h⟩ := h
  exact ⟨j, hk.trans hj, h⟩

theorem next (h : svc.Comes m₀ (n + 1) P) : svc.Comes m₀ n P := h.later n.le_succ

theorem bind (h : svc.Comes m₀ n P)
    (hPQ : ∀ k, n ≤ k → P (svc.after k m₀) → svc.Comes m₀ k Q) : svc.Comes m₀ n Q := by
  obtain ⟨k, hk, ⟨h, hh⟩ | h⟩ := h
  · exact (halted hh).later hk
  · exact (hPQ k hk h).later hk

end Comes

/-- Every request of the program gets its answer. -/
def Answering (svc : Service σ) (m₀ : Machine σ α) (role : Role) (ws : List (Waiting σ α)) : Prop :=
  ∀ ⦃n r q next⦄, svc.after n m₀ = ⟨r, .program role (.request role.chain q next), ws⟩ →
    svc.Comes m₀ n fun m => ∃ r' a, m = ⟨r', .program role (next a), ws⟩

variable {role : Role} {ws : List (Waiting σ α)} {r : Run σ}

/-- A program whose requests are answered comes to its end. -/
theorem Answering.comes (H : svc.Answering m₀ role ws) {p : Program σ (role.Result α)}
    (hp : p.Passes role.chain) (hm : svc.after n m₀ = ⟨r, .program role p, ws⟩) :
    svc.Comes m₀ n fun m => ∃ r' b, m = ⟨r', .program role (.done b), ws⟩ := by
  induction p generalizing n r with
  | done b => exact .here ⟨r, b, hm⟩
  | halt h => exact .halted ⟨role, by rw [hm]⟩
  | request c q next ih =>
    obtain ⟨rfl, hp⟩ := hp
    refine (H hm).bind fun k _ ⟨r', a, hk⟩ => ?_
    exact ih a (hp a) hk
  | read next ih =>
    have hs := steps_after hm
    generalize hm' : svc.after (n + 1) m₀ = m' at hs
    cases hs
    exact (ih _ _ (hp _ _) hm').next
  | service f next ih =>
    have hs := steps_after hm
    generalize hm' : svc.after (n + 1) m₀ = m' at hs
    cases hs
    exact (ih _ (hp _) hm').next
  | command c next ih =>
    have hs := steps_after hm
    generalize hm' : svc.after (n + 1) m₀ = m' at hs
    cases hs with
    | dangling => exact (Comes.halted ⟨role, by rw [hm']⟩).next
    | command => exact (ih _ (hp _) hm').next

/-! ## Releases -/

section

variable {config : EngineConfig} {s : σ} {p : Program σ α} {call : Call} {o : Outcome}
  (hsvc : svc.PassesOn) (hp : p.Passes [])

include hsvc hp

/-- The front end is asked to go on with suspended instances only. -/
theorem state?_of_resume {v : InstanceId} {rest : List InstanceId}
    (hm : svc.after n (.boot config s p) = ⟨r, .stage (.resume call o v rest), ws⟩) :
    r.engine.arena.state? v = some .suspended := by
  have H : (svc.after n (.boot config s p)).activity.Sound := sound_after hsvc.handsOn hp.hands n
  rw [hm] at H
  exact (H.resuming.mp (H.asked rfl)).1

/-- When the front end has gone on with an instance, that has ended, and who waits for it is to be
released next. -/
theorem settled_after {v : InstanceId} {rest : List InstanceId} {result : Except Failure Unit}
    (hm : svc.after n (.boot config s p) =
      ⟨r, .program (.resume call o v rest) (.done result), ws⟩) :
    (svc.after (n + 1) (.boot config s p)).engine.arena.Ended v ∧
      ∃ waiting ⊆ r.engine.arena.deferred v, ∃ r', svc.after (n + 1) (.boot config s p) =
        ⟨r', .stage (.release call o (waiting ++ rest)), ws⟩ := by
  have H : (svc.after n (.boot config s p)).activity.Sound := sound_after hsvc.handsOn hp.hands n
  rw [hm] at H
  obtain ⟨x, hx, -⟩ := Option.map_eq_some_iff.mp (H.resuming.mp List.mem_cons_self).1
  have hs := steps_after hm
  generalize svc.after (n + 1) (.boot config s p) = m' at hs
  cases hs with
  | settle he =>
    subst he
    obtain ⟨hfst, hended⟩ := Engine.takeDeferred_settle hx _ result
    refine ⟨hended, _, fun u hu => ?_, _, rfl⟩
    exact hfst ▸ List.mem_reverse.mp hu

/-- Every instance of a list is released, and all those that wait for them, if the front end comes
to an end whenever it goes on with one. At the moment `k` those of the list have been elaborated. -/
theorem released_comes
    (hresume : ∀ v rest, svc.Answering (.boot config s p) (.resume call o v rest) ws)
    {pending : List InstanceId} (hk : k ≤ n)
    (hm : svc.after n (.boot config s p) = ⟨r, .stage (.release call o pending), ws⟩)
    (hpending : ∀ v ∈ pending, (svc.after k (.boot config s p)).engine.arena.Elaborated v) :
    svc.Comes (.boot config s p) n fun m => ∃ r', m = ⟨r', .stage (.release call o []), ws⟩ := by
  generalize hc : (svc.after n (.boot config s p)).engine.arena.unended
    (svc.after k (.boot config s p)).engine.insts.size = c
  replace hc := hc.le
  induction c using Nat.strong_induction_on generalizing n r pending with
  | _ c ih =>
  -- A release shortens the list, or leaves one instance less that has not ended.
  induction pending generalizing n r with
  | nil => exact .here ⟨r, hm⟩
  | cons v rest ihrest =>
    have hv := hpending v List.mem_cons_self
    have hrest : ∀ u ∈ rest, (svc.after k (.boot config s p)).engine.arena.Elaborated u :=
      fun u hu => hpending u (List.mem_cons_of_mem v hu)
    have hs := steps_after hm
    generalize hm₁ : svc.after (n + 1) (.boot config s p) = m₁ at hs
    cases hs with
    | release =>
      refine (ihrest (hk.trans n.le_succ) hm₁ hrest ?_).next
      exact (Arena.unended_le fun i => ended_mono hsvc.handsOn hp.hands n.le_succ).trans hc
    | wake =>
      have hsuspended := state?_of_resume hsvc hp hm₁
      have hs := steps_after hm₁
      generalize hm₂ : svc.after (n + 1 + 1) (.boot config s p) = m₂ at hs
      cases hs
      refine Comes.next (Comes.next (((hresume v rest).comes (hsvc.resume v) hm₂).bind ?_))
      rintro j hj ⟨r', result, hmⱼ⟩
      obtain ⟨hended, waiting, hwaiting, r₃, hm₃⟩ := settled_after hsvc hp hmⱼ
      have hmono {i j : Nat} (h : i ≤ j) (u : InstanceId) :
          (svc.after i (.boot config s p)).engine.arena.Ended u →
            (svc.after j (.boot config s p)).engine.arena.Ended u :=
        ended_mono hsvc.handsOn hp.hands h
      refine (ih _ ?_ (by omega) hm₃ (fun u hu => ?_) (Nat.le_refl _)).next
      · have hlt : v.index < (svc.after k (.boot config s p)).engine.insts.size :=
          have ⟨_, hs, _⟩ := hv
          (sound_after hsvc.handsOn hp.hands k).lt_of_state? hs
        refine lt_of_lt_of_le (Arena.unended_lt (hmono (by omega)) hlt (fun h => ?_) hended) hc
        have hn := hmono n.le_succ v h
        rw [hm₁, Arena.Ended, hsuspended] at hn
        cases hn <;> contradiction
      · obtain hu | hu := List.mem_append.mp hu
        · have hsub := (elaborated_mono hsvc.handsOn hp.hands (show k ≤ j by omega) hv).2
          rw [hmⱼ] at hsub
          exact (calm_after hsvc.handsOn hp.hands k).elaborated
            (sound_after hsvc.handsOn hp.hands k) hv (hsub (hwaiting hu))
        · exact hrest u hu

/-! ## Calls -/

variable {role : Role} {next : Except TemplateError InstanceId → Program σ (role.Result α)}

/-- A call whose instance is made is answered when all instances are released. -/
theorem release_answers
    (hresume : ∀ v rest,
      svc.Answering (.boot config s p) (.resume call o v rest) (⟨role, next⟩ :: ws))
    {pending : List InstanceId} (hm : svc.after n (.boot config s p) =
      ⟨r, .stage (.release call o pending), ⟨role, next⟩ :: ws⟩) :
    svc.Comes (.boot config s p) n fun m => ∃ r' a, m = ⟨r', .program role (next a), ws⟩ := by
  have hpending : ∀ v ∈ pending, (svc.after n (.boot config s p)).engine.arena.Elaborated v := by
    intro v hv
    refine (calm_after hsvc.handsOn hp.hands n).elaborated_of_pending
      (sound_after hsvc.handsOn hp.hands n) ?_
    rw [hm]
    exact List.mem_append_left _ hv
  refine (released_comes hsvc hp hresume (Nat.le_refl n) hm hpending).bind ?_
  rintro k - ⟨r', hk⟩
  have hs := steps_after hk
  generalize hm' : svc.after (k + 1) (.boot config s p) = m' at hs
  cases hs
  exact (Comes.here ⟨_, _, hm'⟩).next

omit hsvc hp in
/-- A request is answered at once, or an instance is made for it. -/
theorem request_comes {q : Request} (hm : svc.after n (.boot config s p) =
      ⟨r, .program role (.request role.chain q next), ws⟩) :
    svc.Comes (.boot config s p) n fun m => (∃ r' a, m = ⟨r', .program role (next a), ws⟩) ∨
      role.chain.length < config.recursionLimit ∧ ∃ r' call plan i, call.chain = role.chain ∧
        m = ⟨r', .program (.elaborate call plan i)
          (svc.elaborate (Role.elaborate call plan i).chain i), ⟨role, next⟩ :: ws⟩ := by
  have hs := steps_after hm
  generalize hm₁ : svc.after (n + 1) (.boot config s p) = m₁ at hs
  cases hs
  obtain ⟨r₁, call, hcall, hm₁⟩ : ∃ r₁ call, call.chain = role.chain ∧
      svc.after (n + 1) (.boot config s p) = ⟨r₁, .stage (.resolve call), ⟨role, next⟩ :: ws⟩ := by
    rw [hm₁, openCall_eq]
    exact ⟨_, _, rfl, rfl⟩
  refine Comes.next ?_
  have hs := steps_after hm₁
  generalize hm₂ : svc.after (n + 1 + 1) (.boot config s p) = m₂ at hs
  cases hs with
  | unresolved => exact (Comes.here (.inl ⟨_, _, hm₂⟩)).next
  | undeclared => exact (Comes.halted ⟨role, congrArg (·.control) hm₂⟩).next
  | resolve =>
    refine Comes.next ?_
    have hs := steps_after hm₂
    generalize hm₃ : svc.after (n + 1 + 1 + 1) (.boot config s p) = m₃ at hs
    cases hs with
    | refuse | answer => exact (Comes.here (.inl ⟨_, _, hm₃⟩)).next
    | create _ ha =>
      have hlt := Engine.length_lt_of_answer?_eq_none ha
      have hconfig : (svc.after (n + 1 + 1) (.boot config s p)).engine.config = config :=
        config_after svc (n + 1 + 1)
      rw [hm₂] at hconfig
      rw [hcall, hconfig] at hlt
      refine Comes.next ?_
      have hs := steps_after hm₃
      generalize hm₄ : svc.after (n + 1 + 1 + 1 + 1) (.boot config s p) = m₄ at hs
      cases hs
      have hs := steps_after hm₄
      generalize hm₅ : svc.after (n + 1 + 1 + 1 + 1 + 1) (.boot config s p) = m₅ at hs
      cases hs
      exact (Comes.here (.inr ⟨hlt, _, call, _, _, hcall, hm₅⟩)).next.next

/-- If the programs that go on with instances nest at most `bound` deep, every request gets its
answer. -/
theorem answering {bound : Nat} (hbound : ∀ n, (svc.after n (.boot config s p)).resumes ≤ bound)
    (room : Nat) {role : Role} {ws : List (Waiting σ α)}
    (hroom : bound < (role :: ws.map (·.role)).countP Role.resumes + room) :
    svc.Answering (.boot config s p) role ws := by
  induction room generalizing role ws with
  | zero =>
    intro n r q next hm
    have hle := hbound n
    rw [hm] at hle
    exact absurd hle (Nat.not_le.mpr hroom)
  | succ room ihroom =>
  obtain ⟨left, hleft⟩ : ∃ left, config.recursionLimit ≤ role.chain.length + left :=
    ⟨config.recursionLimit, Nat.le_add_left ..⟩
  induction left generalizing role ws with
  | zero =>
    intro n r q next hm
    refine (request_comes hm).bind ?_
    rintro k - (h | ⟨hlt, -⟩)
    · exact .here h
    · omega
  | succ left ihleft =>
    intro n r q next hm
    refine (request_comes hm).bind ?_
    rintro k - (h | ⟨hlt, r', call, plan, i, hcall, hk⟩)
    · exact .here h
    have helaborate : svc.Answering (.boot config s p) (.elaborate call plan i)
        (⟨role, next⟩ :: ws) := by
      refine ihleft hroom ?_
      change _ ≤ call.chain.length + 1 + left
      rw [hcall]
      omega
    have hresume (o : Outcome) (v : InstanceId) (rest : List InstanceId) :
        svc.Answering (.boot config s p) (.resume call o v rest) (⟨role, next⟩ :: ws) := by
      refine ihroom ?_
      rw [List.countP_cons_of_pos rfl]
      change _ < (role :: ws.map (·.role)).countP Role.resumes + 1 + room
      omega
    refine (helaborate.comes (hsvc.elaborate _ _) hk).bind ?_
    rintro j - ⟨r', b, hj⟩
    have hs := steps_after hj
    generalize hj' : svc.after (j + 1) (.boot config s p) = m' at hs
    cases hs with
    | suspend | complete | fail => exact (release_answers hsvc hp (hresume _) hj').next

/-! ## Runs -/

/-- A run ends if the programs that go on with instances nest at most `bound` deep. -/
theorem ends_of_resumes_le {bound : Nat}
    (hbound : ∀ n, (svc.after n (.boot config s p)).resumes ≤ bound) :
    ∃ n, (svc.after n (.boot config s p)).Ended := by
  have hclient : svc.Answering (.boot config s p) .client [] :=
    answering hsvc hp hbound (bound + 1) (Nat.lt_add_left _ (Nat.lt_succ_self bound))
  obtain ⟨n, -, h | ⟨r, b, h⟩⟩ := hclient.comes hp (n := 0) rfl
  · exact ⟨n, .inr h⟩
  · exact ⟨n, .inl ⟨b, congrArg (·.control) h⟩⟩

end

end Service

end Templates
