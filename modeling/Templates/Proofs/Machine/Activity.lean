import Mathlib.Data.List.Infix
import Templates.Proofs.Machine.Becomes

/-!
# What goes on in a run

Of a machine it matters mostly which instances are in hand: those that are being elaborated and those
that have been released and go on, innermost first, and those that are still to be released. With
the engine this is the activity of the machine. `Activity.Moves` lists all that can become of it in a
step (`Service.Steps.moves`), for a front end that hands on no chain but its own or the empty
one (`Service.HandsOn`).
-/

namespace Templates

variable {σ α : Type}

/-! ## Chains that are handed on -/

/-- The program makes requests with the chain `c` or the empty chain only. -/
def Program.Hands (c : Chain) : Program σ α → Prop
  | .done _ | .halt _ => True
  | .read k => ∀ e s, (k e s).Hands c
  | .service _ k => ∀ b, (k b).Hands c
  | .command _ k => ∀ r, (k r).Hands c
  | .request c' _ k => (c' = c ∨ c' = []) ∧ ∀ a, (k a).Hands c

/-- The front end hands on the chain that it was given, or none. -/
structure Service.HandsOn (svc : Service σ) : Prop where
  elaborate (c : Chain) (i : InstanceId) : (svc.elaborate c i).Hands c
  resume (i : InstanceId) : (svc.resume i).Hands []

/-- The chain `c` is that of the innermost program, or empty. -/
def Chain.Handed (c : Chain) (roles : List Role) : Prop :=
  c = [] ∨ ∃ role, roles.head? = some role ∧ c = role.chain

/-- Programs that run inside each other, innermost first. Each but the client runs for a call of the
next. -/
inductive Nested : List Role → Prop
  | client : Nested [.client]
  | elaborate {call p i roles} : Nested roles → call.chain.Handed roles →
    Nested (.elaborate call p i :: roles)
  | resume {call o w rest roles} : Nested roles → call.chain.Handed roles →
    Nested (.resume call o w rest :: roles)

/-! ## Work in hand -/

/-- Instances in hand. -/
structure Work where
  elaborating : List InstanceId := []
  resuming : List InstanceId := []
  pending : List InstanceId := []

/-- The first work lies inside the second. -/
def Work.inside (a b : Work) : Work where
  elaborating := a.elaborating ++ b.elaborating
  resuming := a.resuming ++ b.resuming
  pending := a.pending ++ b.pending

def Role.work : Role → Work
  | .client => {}
  | .elaborate _ _ i => { elaborating := [i] }
  | .resume _ _ w rest => { resuming := [w], pending := rest }

/-- What the engine asks of the front end for an instance. -/
inductive Ask
  | openScope (i : InstanceId)
  | elaborate (i : InstanceId)
  | resume (i : InstanceId)
  deriving DecidableEq

namespace Stage

def asks : Stage → Option Ask
  | .openScope _ _ i => some (.openScope i)
  | .elaborate _ _ i => some (.elaborate i)
  | .resume _ _ w _ => some (.resume w)
  | .resolve _ | .plan .. | .release .. => none

def call : Stage → Call
  | .resolve call | .plan call _ | .openScope call .. | .elaborate call .. | .release call ..
  | .resume call .. => call

def work : Stage → Work
  | .resolve _ | .plan .. => {}
  | .openScope _ _ i | .elaborate _ _ i => { elaborating := [i] }
  | .release _ _ pending => { pending }
  | .resume _ _ w rest => { resuming := [w], pending := rest }

end Stage

/-- The work of programs inside each other, innermost first. -/
def Role.workOf : List Role → Work
  | [] => {}
  | role :: roles => role.work.inside (workOf roles)

/-- The engine, the work in hand, and what is asked of the front end at the moment. -/
structure Activity extends Work where
  asks : Option Ask
  engine : Engine

namespace Machine

/-- What the programs in progress run for, innermost first. -/
def roles (m : Machine σ α) : List Role :=
  match m.control with
  | .program role _ => role :: m.waiting.map (·.role)
  | .stage _ | .unasked => m.waiting.map (·.role)

def work (m : Machine σ α) : Work :=
  match m.control with
  | .stage s => s.work.inside (Role.workOf m.roles)
  | .program .. | .unasked => Role.workOf m.roles

/-- What the engine asks of the front end in the next step. -/
def asks (m : Machine σ α) : Option Ask :=
  match m.control with
  | .stage s => s.asks
  | .program .. | .unasked => none

def activity (m : Machine σ α) : Activity := ⟨m.work, m.asks, m.engine⟩

/-- Programs nest, and only chains that were handed on are in use. -/
structure Handed (m : Machine σ α) : Prop where
  nested : Nested m.roles
  call {s : Stage} : m.control = .stage s → s.call.chain.Handed m.roles
  program {role : Role} {p : Program σ (role.Result α)} :
    m.control = .program role p → p.Hands role.chain
  waiting : ∀ w ∈ m.waiting, ∀ a, (w.next a).Hands w.role.chain

end Machine

/-- The elaborations further out stand on the chain in their order. -/
theorem Nested.chain_prefix {roles : List Role} (H : Nested roles) {c : Chain}
    (hc : c.Handed roles) : c.map (·.inst) <+: (Role.workOf roles).elaborating := by
  obtain rfl | ⟨role, hrole, rfl⟩ := hc
  · exact List.nil_prefix
  induction H generalizing role with
  | client =>
    cases hrole
    exact List.nil_prefix
  | @elaborate call p i roles H hcall ih =>
    cases hrole
    refine List.cons_prefix_cons.mpr ⟨rfl, ?_⟩
    obtain h | ⟨role, hrole, h⟩ := hcall
    · rw [h]
      exact List.nil_prefix
    · rw [h]
      exact ih role hrole
  | resume =>
    cases hrole
    exact List.nil_prefix

/-! ## Moves -/

/-- What can become of an activity in a step. -/
inductive Activity.Moves (sem : Semantics σ) : Activity → Activity → Prop
  | quiet {w : Work} {e e' : Engine} : e.Quiet e' → Moves sem ⟨w, none, e⟩ ⟨w, none, e'⟩
  /-- An instance is made for a plan that no cached instance fits. -/
  | create {w : Work} {e : Engine} {q : Request} {c : Chain} {p : Plan} :
    e.Plans sem q p → e.lookup p.decl p.deduction.args p.enclosing = none →
    c.map (·.inst) <+: w.elaborating →
    Moves sem ⟨w, none, e⟩
      ⟨{ w with elaborating := ⟨e.insts.size⟩ :: w.elaborating },
        some (.openScope ⟨e.insts.size⟩), (e.create q c p).2⟩
  /-- The scope of the parameters is opened. -/
  | openScope {w : Work} {e e' : Engine} {i : InstanceId} : e.Quiet e' →
    Moves sem ⟨w, some (.openScope i), e⟩ ⟨w, some (.elaborate i), e'⟩
  /-- The front end begins to elaborate an instance. -/
  | elaborate {w : Work} {e : Engine} {i : InstanceId} :
    Moves sem ⟨w, some (.elaborate i), e⟩ ⟨w, none, e⟩
  /-- The innermost instance begins to wait for one further out. -/
  | defer {w : Work} {e e' : Engine} {c : Chain} {f : Frame} {i : InstanceId} :
    c.map (·.inst) <+: w.elaborating → f ∈ c → c.innermost? = some i → i ≠ f.inst →
    (e.defer i f.inst).Quiet e' → Moves sem ⟨w, none, e⟩ ⟨w, none, e'⟩
  /-- An instance has its members and waits. -/
  | suspend {w : Work} {e : Engine} {i : InstanceId} {rest : List InstanceId}
    {members : MemberTable} :
    w.elaborating = i :: rest → (e.complete i members).isComplete i = false →
    Moves sem ⟨w, none, e⟩ ⟨{ w with elaborating := rest }, none, e.complete i members⟩
  /-- An instance has its members and waits for nothing. -/
  | complete {w : Work} {e : Engine} {i : InstanceId} {rest : List InstanceId}
    {members : MemberTable} :
    w.elaborating = i :: rest → (e.complete i members).isComplete i = true →
    Moves sem ⟨w, none, e⟩
      (let (waiting, e') := (e.complete i members).takeDeferred i
      ⟨{ w with elaborating := rest, pending := waiting.reverse ++ w.pending }, none, e'⟩)
  /-- An instance cannot be elaborated. -/
  | fail {w : Work} {e : Engine} {i : InstanceId} {rest : List InstanceId}
    {names : SymbolId → String} {reason : String} {span : Span} {c : Chain} :
    w.elaborating = i :: rest →
    Moves sem ⟨w, none, e⟩
      (let (waiting, e') := (e.fail names i reason span c).2.takeDeferred i
      ⟨{ w with elaborating := rest, pending := waiting.reverse ++ w.pending }, none, e'⟩)
  /-- An instance is released and does not go on. -/
  | release {w : Work} {e : Engine} {i : InstanceId} {rest : List InstanceId} :
    w.pending = i :: rest → (e.release i).1 = false →
    Moves sem ⟨w, none, e⟩ ⟨{ w with pending := rest }, none, (e.release i).2⟩
  /-- An instance is released and goes on. -/
  | wake {w : Work} {e : Engine} {i : InstanceId} {rest : List InstanceId} :
    w.pending = i :: rest → (e.release i).1 = true →
    Moves sem ⟨w, none, e⟩
      ⟨{ w with resuming := i :: w.resuming, pending := rest }, some (.resume i), (e.release i).2⟩
  /-- The front end begins to go on with an instance. -/
  | resume {w : Work} {e : Engine} {i : InstanceId} :
    Moves sem ⟨w, some (.resume i), e⟩ ⟨w, none, e⟩
  /-- An instance has gone on. -/
  | settle {w : Work} {e : Engine} {i : InstanceId} {rest : List InstanceId}
    {names : SymbolId → String} {result : Except Failure Unit} :
    w.resuming = i :: rest →
    Moves sem ⟨w, none, e⟩
      (let (waiting, e') := (e.settle names i result).takeDeferred i
      ⟨{ w with resuming := rest, pending := waiting.reverse ++ w.pending }, none, e'⟩)

namespace Service

variable {svc : Service σ} {r : Run σ} {ws : List (Waiting σ α)} {call : Call} {role : Role}
  {e : Engine} {c : Control σ α} {m : Machine σ α}

/-- What a call that made no instance leaves to the program that waits for it. -/
theorem giveAnswer_moves (H : Nested (ws.map (·.role))) {a : Except TemplateError InstanceId}
    {s : σ} (he : r.engine.Quiet e) :
    Activity.Moves svc.toSemantics ⟨Role.workOf (ws.map (·.role)), none, r.engine⟩
      (giveAnswer ⟨e, s⟩ call a ws).activity := by
  cases ws with
  | nil => cases H
  | cons w ws => exact .quiet (he.trans (closeGag_quiet e call.mark))

theorem openCall_activity {c : Chain} {q : Request} : (openCall r c q ws).activity =
    ⟨Role.workOf (ws.map (·.role)), none, (openCall r c q ws).engine⟩ := by
  rw [openCall_eq]
  rfl

/-- Every step is a move. -/
theorem Steps.moves (H : (⟨r, c, ws⟩ : Machine σ α).Handed) (hl : r.engine.Linked)
    (hd : (⟨r, c, ws⟩ : Machine σ α).Planned) (h : svc.Steps r ws c m) :
    Activity.Moves svc.toSemantics (⟨r, c, ws⟩ : Machine σ α).activity m.activity := by
  cases h with
  | unresolved | refuse => exact giveAnswer_moves H.nested (Engine.reject_quiet ..)
  | undeclared =>
    cases ws with
    | nil => cases H.nested
    | cons w ws => exact .quiet (.refl _)
  | @answer call _ _ _ _ _ _ ha =>
    obtain h | ⟨f, hf, i, hi, hne, rfl⟩ := Engine.answer?_cases ha
    · exact giveAnswer_moves H.nested h
    · have hpre := H.nested.chain_prefix (H.call rfl)
      cases ws with
      | nil => cases H.nested
      | cons w ws => exact .defer hpre hf hi hne (closeGag_quiet _ call.mark)
  | create hp ha =>
    exact .create ⟨hd rfl, _, _, congrArg Prod.fst hp⟩ (Engine.answer?_eq_none_iff.mp ha).2.1
      (H.nested.chain_prefix (H.call rfl))
  | openScope => exact .openScope (.modifyInst fun _ => rfl)
  | elaborate => exact .elaborate
  | finish => exact giveAnswer_moves H.nested (.refl _)
  | release h => exact .release rfl h
  | wake h => exact .wake rfl h
  | resume => exact .resume
  | suspend h => exact .suspend rfl h
  | complete h => exact .complete rfl h
  | fail h =>
    obtain rfl := congrArg Prod.snd h
    exact .fail rfl
  | @settle _ _ w rest _ _ e h =>
    subst h
    let outer := Role.workOf (ws.map (·.role))
    change Activity.Moves _ _ ⟨⟨outer.elaborating, outer.resuming,
      ((Engine.takeDeferred _ w).1.reverse ++ rest) ++ outer.pending⟩, none, _⟩
    rw [List.append_assoc]
    exact .settle rfl
  | command hc => exact .quiet (Command.run_quiet hl _ hc)
  | request =>
    rw [openCall_activity]
    exact .quiet openCall_quiet
  | resolve | done | halt | read | service | dangling | unasked => exact .quiet (.refl _)

/-! ## Programs nest -/

theorem stage_handed (H : Nested (ws.map (·.role)))
    (hw : ∀ w ∈ ws, ∀ a, (w.next a).Hands w.role.chain) {s : Stage}
    (hs : s.call.chain.Handed (ws.map (·.role))) : (⟨r, .stage s, ws⟩ : Machine σ α).Handed :=
  ⟨H, fun h => (by cases h; exact hs), nofun, hw⟩

theorem program_handed (H : Nested (role :: ws.map (·.role)))
    (hw : ∀ w ∈ ws, ∀ a, (w.next a).Hands w.role.chain) {p : Program σ (role.Result α)}
    (hp : p.Hands role.chain) : (⟨r, .program role p, ws⟩ : Machine σ α).Handed :=
  ⟨H, nofun, fun h => (by cases h; exact hp), hw⟩

theorem giveAnswer_handed (H : Nested (ws.map (·.role)))
    (hw : ∀ w ∈ ws, ∀ a, (w.next a).Hands w.role.chain) {a : Except TemplateError InstanceId} :
    (giveAnswer r call a ws).Handed := by
  cases ws with
  | nil => cases H
  | cons w ws =>
    exact program_handed H (fun w' h => hw w' (List.mem_cons_of_mem w h)) (hw w List.mem_cons_self a)

theorem haltAsker_handed (H : Nested (ws.map (·.role)))
    (hw : ∀ w ∈ ws, ∀ a, (w.next a).Hands w.role.chain) {h : Halt} :
    (haltAsker r h ws).Handed := by
  cases ws with
  | nil => cases H
  | cons w ws => exact program_handed H (fun w' h => hw w' (List.mem_cons_of_mem w h)) trivial

theorem openCall_handed {chain : Chain} {q : Request} (H : Nested (ws.map (·.role)))
    (hw : ∀ w ∈ ws, ∀ a, (w.next a).Hands w.role.chain)
    (hc : chain.Handed (ws.map (·.role))) : (openCall r chain q ws).Handed := by
  rw [openCall_eq]
  exact stage_handed H hw hc

theorem Steps.handed (hsvc : svc.HandsOn) (H : (⟨r, c, ws⟩ : Machine σ α).Handed)
    (h : svc.Steps r ws c m) : m.Handed := by
  have hw := H.waiting
  cases h with
  | unresolved | refuse | answer | finish => exact giveAnswer_handed H.nested hw
  | undeclared => exact haltAsker_handed H.nested hw
  | resolve | create | openScope | release | wake =>
    have hc := H.call rfl
    exact stage_handed H.nested hw hc
  | elaborate =>
    exact program_handed (.elaborate H.nested (H.call rfl)) hw (hsvc.elaborate _ _)
  | resume => exact program_handed (.resume H.nested (H.call rfl)) hw (hsvc.resume _)
  | suspend | complete | fail =>
    cases H.nested with
    | elaborate hn hc => exact stage_handed hn hw hc
  | settle =>
    cases H.nested with
    | resume hn hc => exact stage_handed hn hw hc
  | done | dangling => exact program_handed H.nested hw trivial
  | halt | unasked => exact H
  | read => exact program_handed H.nested hw (H.program rfl _ _)
  | service | command => exact program_handed H.nested hw (H.program rfl _)
  | @request role c q k =>
    have hp := H.program rfl
    refine openCall_handed H.nested (fun w h => ?_) ?_
    · obtain rfl | h := List.mem_cons.mp h
      · exact hp.2
      · exact hw w h
    · exact hp.1.symm.imp_right fun h => ⟨role, rfl, h⟩

end Service

/-! ## Runs -/

/-- How often the front end was asked for `x` in the first `n` steps. -/
def Service.timesAsked (svc : Service σ) (m : Machine σ α) (x : Ask) (n : Nat) : Nat :=
  (List.range n).countP fun k => (svc.after k m).asks = some x

section

variable {svc : Service σ} {m : Machine σ α} {x : Ask} {n : Nat}

theorem Service.timesAsked_succ_of_eq (h : (svc.after n m).asks = some x) :
    svc.timesAsked m x (n + 1) = svc.timesAsked m x n + 1 := by
  simp [timesAsked, List.range_succ, List.countP_append, h]

theorem Service.timesAsked_succ_of_ne (h : (svc.after n m).asks ≠ some x) :
    svc.timesAsked m x (n + 1) = svc.timesAsked m x n := by
  simp [timesAsked, List.range_succ, List.countP_append, h]

end

theorem Machine.AtTop.work_eq {m : Machine σ α} (h : m.AtTop) : m.work = {} := by
  obtain ⟨r, control, ws⟩ := m
  obtain ⟨rfl, p, rfl⟩ := h
  rfl

namespace Service

variable {svc : Service σ} {config : EngineConfig} {s : σ} {p : Program σ α}

theorem boot_handed (hp : p.Hands []) : (Machine.boot config s p).Handed :=
  ⟨.client, nofun, fun h => (by cases h; exact hp), fun _ h => nomatch h⟩

section

variable (hsvc : svc.HandsOn) (hp : p.Hands [])

include hsvc hp

theorem handed_after (n : Nat) : (svc.after n (.boot config s p)).Handed := by
  induction n with
  | zero => exact boot_handed hp
  | succ n ih =>
    rw [after_succ]
    exact (step_steps _).handed hsvc ih

theorem after_moves (n : Nat) : Activity.Moves svc.toSemantics
    (svc.after n (.boot config s p)).activity (svc.after (n + 1) (.boot config s p)).activity := by
  rw [after_succ]
  exact (step_steps _).moves (handed_after hsvc hp n) (linked_after svc n) (planned_after svc n)

/-- What holds at the beginning and is preserved by moves holds at all times. -/
theorem always {P : Activity → Prop} (hboot : P ⟨{}, none, { config }⟩)
    (hmoves : ∀ a b, a.engine.Linked → P a → Activity.Moves svc.toSemantics a b → P b) (n : Nat) :
    P (svc.after n (.boot config s p)).activity := by
  induction n with
  | zero => exact hboot
  | succ n ih => exact hmoves _ _ (linked_after svc n) ih (after_moves hsvc hp n)

end

end Service

end Templates
