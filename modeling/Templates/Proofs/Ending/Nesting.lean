import Templates.Proofs.Machine.Activity

/-!
# How deep programs nest

A front end may hand on the chain that it was given with every request that it makes
(`Service.PassesOn`). Then the chain is as long as the elaborations are deep, so that not more of
them run inside each other than the recursion limit allows. When the front end goes on with an
instance it is given no chain, and the count begins anew (`Service.length_roles_le`).
-/

namespace Templates

variable {σ α : Type}

/-- The program makes requests with the chain `c` only. -/
def Program.Passes (c : Chain) : Program σ α → Prop
  | .done _ | .halt _ => True
  | .read k => ∀ e s, (k e s).Passes c
  | .service _ k => ∀ b, (k b).Passes c
  | .command _ k => ∀ r, (k r).Passes c
  | .request c' _ k => c' = c ∧ ∀ a, (k a).Passes c

theorem Program.Passes.hands {c : Chain} {p : Program σ α} (h : p.Passes c) : p.Hands c := by
  induction p with
  | done | halt => trivial
  | read k ih => exact fun e s => ih e s (h e s)
  | service m k ih => exact fun b => ih b (h b)
  | command d k ih => exact fun r => ih r (h r)
  | request c' q k ih => exact ⟨.inl h.1, fun a => ih a (h.2 a)⟩

/-- The front end hands on the chain that it is given with every request. It is given none when it
goes on with an instance. -/
structure Service.PassesOn (svc : Service σ) : Prop where
  elaborate (c : Chain) (i : InstanceId) : (svc.elaborate c i).Passes c
  resume (i : InstanceId) : (svc.resume i).Passes []

theorem Service.PassesOn.handsOn {svc : Service σ} (h : svc.PassesOn) : svc.HandsOn :=
  ⟨fun c i => (h.elaborate c i).hands, fun i => (h.resume i).hands⟩

/-- The front end goes on with a released instance. -/
def Role.resumes : Role → Bool
  | .client | .elaborate .. => false
  | .resume .. => true

/-- How many programs in progress go on with a released instance. -/
def Machine.resumes (m : Machine σ α) : Nat := m.roles.countP Role.resumes

/-- The chain that the innermost program was given. -/
def Role.innermostChain (roles : List Role) : Chain := (roles.head?.map Role.chain).getD []

/-- Programs that run inside each other, innermost first. Each but the client runs for a call that
the next one made with its own chain. -/
inductive Stacked : List Role → Prop
  | client : Stacked [.client]
  | elaborate {call p i roles} : Stacked roles → call.chain = Role.innermostChain roles →
    Stacked (.elaborate call p i :: roles)
  | resume {call o w rest roles} : Stacked roles → call.chain = Role.innermostChain roles →
    Stacked (.resume call o w rest :: roles)

/-- Between two programs that go on with instances lie at most as many elaborations as a chain may
be long. -/
theorem Stacked.length_le {roles : List Role} {l : Nat} (H : Stacked roles)
    (hl : ∀ role ∈ roles, role.chain.length ≤ l) : roles.length ≤
      roles.countP Role.resumes * (l + 1) + (Role.innermostChain roles).length + 1 := by
  induction H with
  | client => simp
  | @elaborate call p i roles _ hc ih =>
    have hout := ih fun role hr => hl role (List.mem_cons_of_mem _ hr)
    have hlen : (Role.innermostChain (.elaborate call p i :: roles)).length =
        (Role.innermostChain roles).length + 1 := congrArg (·.length + 1) hc
    rw [hlen, List.countP_cons_of_neg Bool.false_ne_true, List.length_cons]
    omega
  | @resume call o w rest roles _ hc ih =>
    have hout := ih fun role hr => hl role (List.mem_cons_of_mem _ hr)
    have hle : (Role.innermostChain roles).length ≤ l := by
      cases roles with
      | nil => exact Nat.zero_le l
      | cons role roles => exact hl role (List.mem_cons_of_mem _ List.mem_cons_self)
    rw [List.countP_cons_of_pos rfl, List.length_cons, Nat.succ_mul]
    omega

/-- The call that makes an instance, until the front end is asked for its members. -/
def Stage.making? : Stage → Option Call
  | .openScope call .. | .elaborate call .. => some call
  | .resolve _ | .plan .. | .release .. | .resume .. => none

/-- Only chains are in use that were passed on, none longer than `l`. -/
structure Machine.Passed (l : Nat) (m : Machine σ α) : Prop where
  stacked : Stacked m.roles
  short : ∀ role ∈ m.roles, role.chain.length ≤ l
  stage {s : Stage} : m.control = .stage s → s.call.chain = Role.innermostChain m.roles
  making {s : Stage} {call : Call} :
    m.control = .stage s → s.making? = some call → call.chain.length < l
  program {role : Role} {p : Program σ (role.Result α)} :
    m.control = .program role p → p.Passes role.chain
  waiting : ∀ w ∈ m.waiting, ∀ a, (w.next a).Passes w.role.chain

/-- The program makes no requests. -/
def Program.Alone : Program σ α → Prop
  | .done _ | .halt _ => True
  | .read k => ∀ e s, (k e s).Alone
  | .service _ k => ∀ b, (k b).Alone
  | .command _ k => ∀ r, (k r).Alone
  | .request .. => False

/-- No program that goes on with an instance waits for an answer. -/
structure Machine.Unnested (m : Machine σ α) : Prop where
  program {role : Role} {p : Program σ (role.Result α)} :
    m.control = .program role p → role.resumes = true → p.Alone
  waiting : ∀ w ∈ m.waiting, w.role.resumes = false

theorem Machine.Unnested.resumes_le {m : Machine σ α} (H : m.Unnested) : m.resumes ≤ 1 := by
  have hw : (m.waiting.map (·.role)).countP Role.resumes = 0 := by
    refine List.countP_eq_zero.mpr fun role h => ?_
    obtain ⟨w, hw, rfl⟩ := List.mem_map.mp h
    rw [H.waiting w hw]
    exact Bool.false_ne_true
  unfold resumes roles
  split
  · rw [List.countP_cons, hw]
    split <;> omega
  · omega
  · omega

/-- An instance is made only inside less than the recursion limit of others. -/
theorem Engine.length_lt_of_answer?_eq_none {e : Engine} {names : SymbolId → String} {q : Request}
    {c : Chain} {p : Plan} (h : e.answer? names q c p = none) :
    c.length < e.config.recursionLimit := by
  exact (answer?_eq_none_iff.mp h).2.2

namespace Service

variable {svc : Service σ} {r : Run σ} {ws : List (Waiting σ α)} {call : Call} {role : Role}
  {c : Control σ α} {m : Machine σ α} {l : Nat}

section

variable (H : Stacked (ws.map (·.role))) (hl : ∀ role ∈ ws.map (·.role), role.chain.length ≤ l)
  (hw : ∀ w ∈ ws, ∀ a, (w.next a).Passes w.role.chain)

include H hl hw

theorem stage_passed {s : Stage} (hs : s.call.chain = Role.innermostChain (ws.map (·.role)))
    (hm : ∀ call, s.making? = some call → call.chain.length < l) :
    (⟨r, .stage s, ws⟩ : Machine σ α).Passed l := by
  refine ⟨H, hl, fun h => ?_, fun h => ?_, (nomatch ·), hw⟩
  · cases h
    exact hs
  · cases h
    exact hm _

theorem giveAnswer_passed {a : Except TemplateError InstanceId} :
    (giveAnswer r call a ws).Passed l := by
  cases ws with
  | nil => cases H
  | cons w ws =>
    refine ⟨H, hl, (nomatch ·), (nomatch ·), fun h => ?_,
      fun w' h => hw w' (List.mem_cons_of_mem w h)⟩
    cases h
    exact hw w List.mem_cons_self a

theorem haltAsker_passed {h : Halt} : (haltAsker r h ws).Passed l := by
  cases ws with
  | nil => cases H
  | cons w ws =>
    refine ⟨H, hl, (nomatch ·), (nomatch ·), fun h => ?_,
      fun w' h => hw w' (List.mem_cons_of_mem w h)⟩
    cases h
    trivial

end

theorem program_passed (H : Stacked (role :: ws.map (·.role)))
    (hl : ∀ role' ∈ role :: ws.map (·.role), role'.chain.length ≤ l)
    (hw : ∀ w ∈ ws, ∀ a, (w.next a).Passes w.role.chain) {p : Program σ (role.Result α)}
    (hp : p.Passes role.chain) : (⟨r, .program role p, ws⟩ : Machine σ α).Passed l :=
  ⟨H, hl, (nomatch ·), (nomatch ·), fun h => (by cases h; exact hp), hw⟩

theorem Steps.passed (hsvc : svc.PassesOn) (hr : r.engine.config.recursionLimit = l)
    (H : (⟨r, c, ws⟩ : Machine σ α).Passed l) (h : svc.Steps r ws c m) : m.Passed l := by
  have hw := H.waiting
  have hinner {role : Role} (hn : role.chain.length ≤ l)
      (hl : ∀ role ∈ ws.map (·.role), role.chain.length ≤ l) :
      ∀ role' ∈ role :: ws.map (·.role), role'.chain.length ≤ l := by
    intro role' hr
    obtain rfl | hr := List.mem_cons.mp hr
    · exact hn
    · exact hl role' hr
  cases h with
  | unresolved | refuse | answer | finish => exact giveAnswer_passed H.stacked H.short hw
  | undeclared => exact haltAsker_passed H.stacked H.short hw
  | resolve | release | wake =>
    have hc := H.stage rfl
    exact stage_passed H.stacked H.short hw hc (by rintro _ ⟨⟩)
  | create _ ha =>
    have hc := H.stage rfl
    refine stage_passed H.stacked H.short hw hc ?_
    rintro _ ⟨⟩
    exact hr ▸ Engine.length_lt_of_answer?_eq_none ha
  | openScope =>
    have hc := H.stage rfl
    have hm := H.making rfl rfl
    refine stage_passed H.stacked H.short hw hc ?_
    rintro _ ⟨⟩
    exact hm
  | elaborate =>
    exact program_passed (.elaborate H.stacked (H.stage rfl)) (hinner (H.making rfl rfl) H.short) hw
      (hsvc.elaborate _ _)
  | resume =>
    exact program_passed (.resume H.stacked (H.stage rfl)) (hinner (Nat.zero_le _) H.short) hw
      (hsvc.resume _)
  | suspend | complete | fail =>
    cases H.stacked with
    | elaborate hs hc =>
      exact stage_passed hs (fun role h => H.short role (List.mem_cons_of_mem _ h)) hw hc
        (by rintro _ ⟨⟩)
  | settle =>
    cases H.stacked with
    | resume hs hc =>
      exact stage_passed hs (fun role h => H.short role (List.mem_cons_of_mem _ h)) hw hc
        (by rintro _ ⟨⟩)
  | done | dangling => exact program_passed H.stacked H.short hw trivial
  | halt | unasked => exact H
  | read => exact program_passed H.stacked H.short hw (H.program rfl _ _)
  | service | command => exact program_passed H.stacked H.short hw (H.program rfl _)
  | @request role c q k =>
    obtain ⟨hc, hk⟩ := H.program rfl
    have hw' : ∀ w ∈ (⟨role, k⟩ : Waiting σ α) :: ws, ∀ a, (w.next a).Passes w.role.chain := by
      intro w h
      obtain rfl | h := List.mem_cons.mp h
      · exact hk
      · exact hw w h
    have hs : Stacked (((⟨role, k⟩ : Waiting σ α) :: ws).map (·.role)) := H.stacked
    rw [openCall_eq]
    exact stage_passed hs H.short hw' hc (by rintro _ ⟨⟩)

/-- If no program makes requests when it goes on with an instance, these programs do not nest. -/
theorem Steps.unnested (hsvc : ∀ i, (svc.resume i).Alone)
    (H : (⟨r, c, ws⟩ : Machine σ α).Unnested) (h : svc.Steps r ws c m) : m.Unnested := by
  have hstage {s : Stage} {r : Run σ} {ws : List (Waiting σ α)}
      (hw : ∀ w ∈ ws, w.role.resumes = false) : (⟨r, .stage s, ws⟩ : Machine σ α).Unnested :=
    ⟨(nomatch ·), hw⟩
  have hprogram {role : Role} {p : Program σ (role.Result α)} {r : Run σ}
      (hp : role.resumes = true → p.Alone) : (⟨r, .program role p, ws⟩ : Machine σ α).Unnested :=
    ⟨fun h => (by cases h; exact hp), H.waiting⟩
  have hanswer {r : Run σ} {call : Call} {a : Except TemplateError InstanceId} :
      (giveAnswer r call a ws).Unnested := by
    cases ws with
    | nil => exact ⟨(nomatch ·), List.forall_mem_nil _⟩
    | cons w ws =>
      obtain ⟨hw, hws⟩ := List.forall_mem_cons.mp H.waiting
      refine ⟨fun h => ?_, hws⟩
      cases h
      exact fun h => absurd (hw.symm.trans h) Bool.false_ne_true
  cases h with
  | unresolved | refuse | answer | finish => exact hanswer
  | undeclared =>
    cases ws with
    | nil => exact ⟨(nomatch ·), List.forall_mem_nil _⟩
    | cons w ws =>
      refine ⟨fun h => ?_, (List.forall_mem_cons.mp H.waiting).2⟩
      cases h
      exact fun _ => trivial
  | resolve | create | openScope | release | wake | suspend | complete | fail | settle =>
    exact hstage H.waiting
  | elaborate => exact hprogram (nomatch ·)
  | resume => exact hprogram fun _ => hsvc _
  | done | dangling => exact hprogram fun _ => trivial
  | halt | unasked => exact H
  | read => exact hprogram fun h => H.program rfl h _ _
  | service | command => exact hprogram fun h => H.program rfl h _
  | @request role c q k =>
    have hrole : role.resumes = false := Bool.eq_false_iff.mpr fun h => H.program rfl h
    have hw : ∀ w ∈ (⟨role, k⟩ : Waiting σ α) :: ws, w.role.resumes = false :=
      List.forall_mem_cons.mpr ⟨hrole, H.waiting⟩
    rw [openCall_eq]
    exact hstage hw

/-! ## Runs -/

variable {config : EngineConfig} {s : σ} {p : Program σ α}

theorem passed_after (hsvc : svc.PassesOn) (hp : p.Passes []) (n : Nat) :
    (svc.after n (.boot config s p)).Passed config.recursionLimit := by
  induction n with
  | zero =>
    refine ⟨.client, fun role hr => ?_, (nomatch ·), (nomatch ·), fun h => ?_, fun w hw => ?_⟩
    · obtain rfl := List.mem_singleton.mp hr
      exact Nat.zero_le _
    · cases h
      exact hp
    · cases hw
  | succ n ih =>
    rw [after_succ]
    exact (step_steps _).passed hsvc (congrArg _ (config_after svc n)) ih

/-- How many programs run inside each other. -/
theorem length_roles_le (hsvc : svc.PassesOn) (hp : p.Passes []) (n : Nat) :
    (svc.after n (.boot config s p)).roles.length ≤
      ((svc.after n (.boot config s p)).resumes + 1) * (config.recursionLimit + 1) := by
  have H : (svc.after n (.boot config s p)).Passed config.recursionLimit := passed_after hsvc hp n
  have hle := H.stacked.length_le H.short
  have hchain : (Role.innermostChain (svc.after n (.boot config s p)).roles).length ≤
      config.recursionLimit := by
    cases hr : (svc.after n (.boot config s p)).roles with
    | nil => exact Nat.zero_le _
    | cons role roles => exact H.short role (hr ▸ List.mem_cons_self)
  rw [Nat.succ_mul]
  change _ ≤ Machine.resumes _ * _ + _ + 1 at hle
  omega

theorem unnested_after (hsvc : ∀ i, (svc.resume i).Alone) (n : Nat) :
    (svc.after n (.boot config s p)).Unnested := by
  induction n with
  | zero =>
    refine ⟨fun h => ?_, List.forall_mem_nil _⟩
    cases h
    exact (nomatch ·)
  | succ n ih =>
    rw [after_succ]
    exact (step_steps _).unnested hsvc ih

end Service

end Templates
