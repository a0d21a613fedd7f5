import Mathlib.Data.Finset.Lattice.Fold
import Templates.Proofs.Caching.Invariant
import Templates.Proofs.Ending.Answering

/-!
# Runs that end

The recursion limit bounds how deep elaborations nest inside each other, but not how deep the front
end goes on with instances inside each other, because it does so with an empty chain.
`Service.cutsOff` says that this is all that can keep a run from ending. It can: `spiral` passes on
its chain, and a client that asks it for an instance never gets an answer.
-/

namespace Templates

namespace Service

variable {σ α : Type} {svc : Service σ} {m₀ : Machine σ α} {n : Nat}

/-- The nesting of the programs in a run that ends is bounded. -/
theorem resumes_le_of_ended (h : (svc.after n m₀).Ended) :
    ∃ bound, ∀ k, (svc.after k m₀).resumes ≤ bound := by
  refine ⟨(Finset.range (n + 1)).sup fun k => (svc.after k m₀).resumes, fun k => ?_⟩
  have hle {j : Nat} (hj : j < n + 1) : (svc.after j m₀).resumes ≤ _ :=
    Finset.le_sup (f := fun k => (svc.after k m₀).resumes) (Finset.mem_range.mpr hj)
  obtain hk | hk := Nat.lt_or_ge k (n + 1)
  · exact hle hk
  · rw [after_eq_of_ended h (Nat.le_of_succ_le hk)]
    exact hle (Nat.lt_succ_self n)

/-- How the run from `m₀` is cut off by the recursion limit. -/
structure CutsOff (svc : Service σ) (config : EngineConfig) (m₀ : Machine σ α) : Prop where
  /-- Between two programs that go on with instances not more instances are elaborated inside each
  other than the limit allows. -/
  depth (n : Nat) : (svc.after n m₀).roles.length ≤
    ((svc.after n m₀).resumes + 1) * (config.recursionLimit + 1)
  /-- The run ends unless ever more programs that go on with instances run inside each other. -/
  ends_iff : (∃ n, (svc.after n m₀).Ended) ↔ ∃ bound, ∀ n, (svc.after n m₀).resumes ≤ bound
  /-- It ends if those programs make no requests. -/
  alone : (∀ i, (svc.resume i).Alone) → ∃ n, (svc.after n m₀).Ended

/-- **The recursion limit cuts off what is made, not what goes on.** -/
theorem cutsOff {config : EngineConfig} {s : σ} {p : Program σ α} (hsvc : svc.PassesOn)
    (hp : p.Passes []) : svc.CutsOff config (.boot config s p) where
  depth := length_roles_le hsvc hp
  ends_iff := ⟨fun ⟨_, h⟩ => resumes_le_of_ended h, fun ⟨_, h⟩ => ends_of_resumes_le hsvc hp h⟩
  alone h := ends_of_resumes_le hsvc hp fun n => (unnested_after h n).resumes_le

end Service

/-! ## A front end that is cut off -/

/-- `n` pointers to `int`. -/
def pointer : Nat → Ty
  | 0 => .int
  | n + 1 => .ptr (pointer n)

theorem pointer_inj {m n : Nat} (h : pointer m = pointer n) : m = n := by
  induction m generalizing n with
  | zero =>
    cases n with
    | zero => rfl
    | succ => cases h
  | succ m ih =>
    cases n with
    | zero => cases h
    | succ => exact congrArg _ (ih (Ty.ptr.inj h))

theorem containsError_pointer (n : Nat) : (pointer n).containsError = false := by
  induction n with
  | zero => rfl
  | succ n ih => exact ih

/-- Asks the template `d` for its instance with the type `t`. -/
def askFor (d : Nat) (t : Ty) (need : Need := .members) : Request :=
  { decl := ⟨d⟩, args := [.type t], need }

/-- Makes at most one request. -/
def Program.asking {σ α : Type} (c : Chain) (a : α) : Option Request → Program σ α
  | some q => .request c q fun _ => .done a
  | none => .done a

theorem Program.passes_asking {σ α : Type} {c : Chain} {a : α} (q : Option Request) :
    (Program.asking c a q : Program σ α).Passes c := by
  cases q with
  | none => trivial
  | some q => exact ⟨rfl, fun _ => trivial⟩

/-- A template with one type parameter. -/
def unary (name : String) : Decl := { name, params := [{ name := "T", kind := .type {} }] }

/-- A front end whose every instance needs one with a pointer more. -/
def deepening : Service Unit where
  evaluate _ _ := pure (.error ⟨"", {}⟩)
  openScope s := pure s
  declareSymbol _ _ _ := pure ()
  symbolName _ _ := ""
  elaborate c i := .asking c (.ok []) (some (askFor 0 (pointer (i.index + 1))))

def deepeningClient : Program Unit (Except TemplateError InstanceId) :=
  .command (.declare (unary "A")) fun _ => .request [] (askFor 0 .int) .done

theorem deepening_passesOn : deepening.PassesOn :=
  ⟨fun _ _ => ⟨rfl, fun _ => trivial⟩, fun _ => trivial⟩

/-- The machine of the template at its beginning. -/
def deepeningBoot : Machine Unit (Except TemplateError InstanceId) :=
  .boot { recursionLimit := 2, digest := fun _ _ => default } () deepeningClient

/-- The third instance is not made, and the client gets its answer. -/
theorem cutsOff_deepening : deepening.PassesOn ∧ deepeningClient.Passes [] ∧
    (∀ i, (deepening.resume i).Alone) ∧ (deepening.after 18 deepeningBoot).AtTop ∧
    (deepening.after 18 deepeningBoot).engine.insts.size = 2 ∧
    (deepening.after 18 deepeningBoot).engine.queue.queued.toList.map (·.code) =
      [.nestingLimit] ∧
    deepening.CutsOff { recursionLimit := 2, digest := fun _ _ => default } deepeningBoot :=
  ⟨deepening_passesOn, fun _ => ⟨rfl, fun _ => trivial⟩, fun _ => trivial, ⟨rfl, _, rfl⟩, rfl, rfl,
    Service.cutsOff deepening_passesOn fun _ => ⟨rfl, fun _ => trivial⟩⟩

/-! ## A front end that never comes to an end

Each turn of the spiral makes an instance of both templates, for arguments that no instance had
before (`Spiral.turn`), and lies inside the turn before it.
-/

/-- What an instance of either template needs. -/
def spiralNeeds (d : DeclId) (deduced : List Arg) : Option Request :=
  match d.index, deduced with
  | 0, [.type t] => some (askFor 1 (.ptr t))
  | 1, [.type (.ptr t)] => some (askFor 0 t .reference)
  | _, _ => none

/-- What an instance asks for when it goes on. -/
def spiralGoesOn (deduced : List Arg) : Option Request :=
  match deduced with
  | [.type t] => some (askFor 0 (.ptr t))
  | _ => none

/-- A front end for two templates. An instance of the first needs one of the second, for a pointer
to its argument, and that refers back to it. When the second goes on it asks the first for one
pointer more. -/
def spiral : Service Unit where
  evaluate _ _ := pure (.error ⟨"", {}⟩)
  openScope s := pure s
  declareSymbol _ _ _ := pure ()
  symbolName _ _ := ""
  elaborate c _ := .asking c (.ok []) (c.head?.bind fun f => spiralNeeds f.decl f.args)
  resume i := .read fun e _ =>
    .asking [] (.ok ()) ((e.inst? i).bind fun x => spiralGoesOn x.deduced)

def spiralClient : Program Unit (Except TemplateError InstanceId) :=
  .command (.declare (unary "A")) fun _ => .command (.declare (unary "B")) fun _ =>
    .request [] (askFor 0 .int) .done

theorem spiral_passesOn : spiral.PassesOn where
  elaborate _ _ := Program.passes_asking _
  resume _ _ _ := Program.passes_asking _

/-- The plan of a request for either template. -/
def planFor (d : Nat) (t : Ty) : Plan := ⟨[.type t], ⟨d⟩, ⟨.exact, [.type t]⟩, none⟩

/-- Both templates are declared, and every instance is for less than `k` pointers. -/
structure Spiral (k : Nat) (e : Engine) : Prop where
  config : 2 ≤ e.config.recursionLimit
  decls : ∃ x y, e.decls =
    #[{ unary "A" with cache := x }, { unary "B" with cache := y }]
  made {i : InstanceId} {x : Instance} :
    e.origins i = some x → ∃ j < k, x.deduced = [.type (pointer j)]

namespace Spiral

variable {e e' : Engine} {k n d : Nat} {t : Ty} {need : Need} {c : Chain}
  (ws : List (Waiting Unit (Except TemplateError InstanceId)))

/-! ### The engine -/

theorem of_keeps (H : Spiral k e) (h : e.Keeps e') (hd : e'.decls = e.decls) : Spiral k e' where
  config := h.config ▸ H.config
  decls := hd ▸ H.decls
  made hx := H.made (h.origins ▸ hx)

theorem countRequest (H : Spiral k e) : Spiral k e.countRequest :=
  H.of_keeps e.countRequest_quiet.keeps rfl

/-- Nothing is cached for more pointers. -/
theorem lookup_eq_none (H : Spiral k e) (hk : k ≤ n) :
    e.lookup ⟨d⟩ [.type (pointer n)] none = none := by
  refine Option.eq_none_iff_forall_ne_some.mpr fun i h => ?_
  rw [Engine.lookup_eq] at h
  have h := List.find?_some h
  cases hx : e.origins i with
  | none => simp [hx] at h
  | some x =>
    obtain ⟨j, hj, hxj⟩ := H.made hx
    rw [hx, Option.map_some, Option.getD_some, Instance.hasKey, Bool.and_eq_true] at h
    have heq : pointer j = pointer n :=
      Arg.type.inj (List.head_eq_of_cons_eq (hxj.symm.trans (of_decide_eq_true h.2)))
    have := pointer_inj heq
    omega

theorem create (H : Spiral k e) (hd : d < 2) (hk : k ≤ n) :
    Spiral (n + 1) (e.create (askFor d (pointer n)) c (planFor d (pointer n))).2 where
  config := H.config
  decls := by
    obtain ⟨x, y, h⟩ := H.decls
    obtain ⟨config, decls, insts, roots, queue, stats⟩ := e
    subst h
    match d, hd with
    | 0, _ => exact ⟨_, _, rfl⟩
    | 1, _ => exact ⟨_, _, rfl⟩
  made {i x} hx := by
    rw [Engine.origins_create] at hx
    by_cases hi : i = ⟨e.insts.size⟩
    · rw [hi, Arena.put_self] at hx
      cases hx
      exact ⟨n, n.lt_succ_self, rfl⟩
    · rw [Arena.put_of_ne hi] at hx
      obtain ⟨j, hj, hx⟩ := H.made hx
      exact ⟨j, by omega, hx⟩

theorem plan (H : Spiral k e) (hd : d < 2) :
    e.plan spiral.toSemantics (askFor d t need) [.type t] () = (.ok (planFor d t), ()) := by
  obtain ⟨x, y, h⟩ := H.decls
  obtain ⟨config, decls, insts, roots, queue, stats⟩ := e
  subst h
  match d, hd with
  | 0, _ => rfl
  | 1, _ => rfl

theorem answer? (H : Spiral k e) (hk : k ≤ n) (hc : c.length < 2)
    (hf : c.findAttempt? ⟨d⟩ [.type (pointer n)] none = none) :
    e.answer? (spiral.symbolName ()) (askFor d (pointer n)) c (planFor d (pointer n)) = none := by
  exact Engine.answer?_eq_none_iff.mpr
    ⟨hf, H.lookup_eq_none hk, Nat.lt_of_lt_of_le hc H.config⟩

/-- The engine when `b` has waited for `a`, both have their members, and `b` is released. -/
def parked (e : Engine) (a b : InstanceId) : Engine :=
  (((((e.defer b a).complete b []).complete a []).takeDeferred a).2.release b).2

theorem keeps_parked (e : Engine) (a b : InstanceId) : e.Keeps (parked e a b) :=
  (Engine.defer_keeps ..).trans ((Engine.complete_keeps ..).trans ((Engine.complete_keeps ..).trans
    ((Engine.takeDeferred_keeps ..).trans (Engine.release_keeps ..))))

theorem decls_parked (e : Engine) (a b : InstanceId) : (parked e a b).decls = e.decls := by
  have hrelease (e : Engine) : (e.release b).2.decls = e.decls := rfl
  have htake (e : Engine) : (e.takeDeferred a).2.decls = e.decls := rfl
  have hcomplete (e : Engine) (i : InstanceId) : (e.complete i []).decls = e.decls := rfl
  rw [parked, hrelease, htake, hcomplete, hcomplete, Engine.defer]
  split
  · rfl
  · split <;> rfl

/-- An instance waits for one further out, both get their members, and the instance goes on. -/
theorem parks {a b : InstanceId} {x y : Instance} (hx : e.arena a = some x)
    (hy : e.arena b = some y) (hba : b ≠ a) (hdeferred : x.deferred = []) (hxw : x.waitingOn = 0)
    (hyw : y.waitingOn = 0) :
    let e₁ := (e.defer b a).complete b []
    let e₂ := e₁.complete a []
    e₁.isComplete b = false ∧ e₂.isComplete a = true ∧ (e₂.takeDeferred a).1 = [b] ∧
      ((e₂.takeDeferred a).2.release b).1 = true := by
  intro e₁ e₂
  have ht : a.index < e.insts.size := by
    by_contra h
    rw [Engine.arena_eq_none_iff.mpr (Nat.le_of_not_lt h)] at hx
    cases hx
  have hdefer : (e.defer b a).arena = _ := e.arena_defer ht
  rw [Arena.deferred_eq hx, hdeferred, if_neg List.not_mem_nil] at hdefer
  have hxa : (e.defer b a).arena a = some { x with deferred := [b] } := by
    rw [hdefer, Arena.alter, Function.update_of_ne hba.symm, Arena.alter_eq_put hx, Arena.put_self,
      hdeferred]
    rfl
  have hyb : (e.defer b a).arena b = some { y with waitingOn := 1 } := by
    rw [hdefer, Arena.alter_eq_put (x := y), Arena.put_self, hyw]
    rw [Arena.alter, Function.update_of_ne hba, hy]
  have harena : e₁.arena = _ := Engine.arena_complete.trans (Arena.alter_eq_put hyb)
  have hxa₁ : e₁.arena a = some { x with deferred := [b] } := by
    rw [harena, Arena.put_of_ne hba.symm, hxa]
  have htaken : (e₂.takeDeferred a).1 = _ ∧ (e₂.takeDeferred a).2.arena = _ :=
    Engine.takeDeferred_alter Engine.arena_complete hxa₁ rfl
  have hyb₂ : (e₂.takeDeferred a).2.arena b = _ :=
    (congrFun htaken.2 b).trans ((Arena.put_of_ne hba).trans (harena ▸ Arena.put_self))
  refine ⟨?_, ?_, ?_, ?_⟩
  · rw [← Bool.not_eq_true, Engine.isComplete_complete hyb]
    exact Nat.one_ne_zero
  · rw [Engine.isComplete_complete hxa₁]
    exact hxw
  · rw [htaken.1, Arena.deferred_eq hxa₁]
  · rw [Engine.release_fst_iff, Arena.waitingOn_eq hyb₂, Arena.state?_eq hyb₂]
    · exact ⟨rfl, rfl⟩
    · rw [Arena.waitingOn_eq hyb₂]
      exact Nat.one_pos

/-! ### The machine -/

/-- The machine gets from the first state to the second in a positive number of steps. -/
def Reaches (m m' : Machine Unit (Except TemplateError InstanceId)) : Prop :=
  ∃ n, spiral.after (n + 1) m = m'

theorem Reaches.step {m m' : Machine Unit (Except TemplateError InstanceId)}
    (h : spiral.step m = m') : Reaches m m' := ⟨0, h⟩

theorem Reaches.trans {m m' m'' : Machine Unit (Except TemplateError InstanceId)}
    (h : Reaches m m') (h' : Reaches m' m'') : Reaches m m'' := by
  obtain ⟨k, rfl⟩ := h
  obtain ⟨n, rfl⟩ := h'
  exact ⟨n + 1 + k, (Service.after_after (k := n + 1) (n := k + 1)).symm⟩

/-- The call for an instance of either template. -/
def callFor (d n : Nat) (c : Chain) : Call := ⟨c, askFor d (pointer n), none⟩

/-- The frame of such an instance. -/
def frameFor (d n : Nat) (i : InstanceId) : Frame :=
  Engine.frameOf (askFor d (pointer n)) (planFor d (pointer n)) i

/-- What waits while such an instance needs another. -/
def waitingFor (d n : Nat) (c : Chain) (i : InstanceId) :
    Waiting Unit (Except TemplateError InstanceId) :=
  ⟨.elaborate (callFor d n c) (planFor d (pointer n)) i, fun _ => .done (.ok [])⟩

/-- The client or a program that goes on asks for an instance of the first template. -/
def asking (k : Nat) (e : Engine) : Machine Unit (Except TemplateError InstanceId) :=
  ⟨⟨e, ()⟩, .stage (.resolve (callFor 0 k [])), ws⟩

theorem resolve (H : Spiral k e) (hd : d < 2) (ht : t.containsError = false) :
    Reaches ⟨⟨e, ()⟩, .stage (.resolve ⟨c, askFor d t need, none⟩), ws⟩
      ⟨⟨e, ()⟩, .stage (.plan ⟨c, askFor d t need, none⟩ [.type t]), ws⟩ := by
  have hsize : e.decls.size = 2 := by
    obtain ⟨x, y, h⟩ := H.decls
    rw [h]
    rfl
  have hresolve : spiral.resolveRequest (askFor d t need) () = (.ok [.type t], ()) := by
    have herror : [Arg.type t].any Arg.containsError = false := by
      simpa [Arg.containsError] using ht
    change (if [Arg.type t].any Arg.containsError then pure _ else pure _ : StateM Unit _) () = _
    rw [herror]
    rfl
  refine .step ?_
  simp only [Service.step, Service.stepStage, hresolve]
  exact if_neg (hsize ▸ Nat.not_le.mpr hd)

/-- An instance is made for more pointers than before. -/
theorem makes (H : Spiral k e) (hd : d < 2) (hk : k ≤ n) (hc : c.length < 2)
    (hf : c.findAttempt? ⟨d⟩ [.type (pointer n)] none = none) :
    let call := callFor d n c
    let p := planFor d (pointer n)
    let i : InstanceId := ⟨e.insts.size⟩
    ∃ e', Spiral (n + 1) e' ∧ e'.insts.size = e.insts.size + 1 ∧
      e'.arena = e.arena.put i (e.made call.request c p) ∧
      Reaches ⟨⟨e, ()⟩, .stage (.resolve call), ws⟩ ⟨⟨e', ()⟩, .program (.elaborate call p i)
        (spiral.elaborate (frameFor d n i :: c) i), ws⟩ := by
  intro call p i
  let e₁ := (e.create call.request c p).2
  have hplan : spiral.step ⟨⟨e, ()⟩, .stage (.plan call [.type (pointer n)]), ws⟩ =
      ⟨⟨e₁, ()⟩, .stage (.openScope call p i), ws⟩ := by
    have hnew := H.answer? hk hc hf
    simp only [Service.step, Service.stepStage, Service.carryOutStep, call, callFor, p, H.plan hd,
      hnew]
    rfl
  obtain ⟨scope, hopen⟩ : ∃ scope, spiral.step ⟨⟨e₁, ()⟩, .stage (.openScope call p i), ws⟩ =
      ⟨⟨e₁.modifyInst i fun inst => { inst with paramScope := some scope }, ()⟩,
        .stage (.elaborate call p i), ws⟩ := ⟨_, rfl⟩
  generalize he₂ : e₁.modifyInst i (fun inst => { inst with paramScope := some scope }) = e₂
    at hopen
  have hq : e₁.Quiet e₂ := he₂ ▸ .modifyInst fun _ => rfl
  have hdecls : e₂.decls = e₁.decls := he₂ ▸ rfl
  refine ⟨e₂, (H.create hd hk).of_keeps hq.keeps hdecls,
    hq.insts.trans Engine.insts_create, hq.arena.trans Engine.arena_create, ?_⟩
  exact .trans (H.resolve ws hd (containsError_pointer n))
    (.trans (.step hplan) (.trans (.step hopen) (.step rfl)))

section

variable {call : Call} {p : Plan} {i w : InstanceId} {o : Outcome} {rest : List InstanceId}

theorem suspend (h : (e.complete i []).isComplete i = false) :
    Reaches ⟨⟨e, ()⟩, .program (.elaborate call p i) (.done (.ok [])), ws⟩
      ⟨⟨e.complete i [], ()⟩, .stage (.release call ⟨i, .ok i⟩ []), ws⟩ := by
  refine .step ?_
  simp only [Service.step, Service.stepProgram, Service.programEnded, h]
  rfl

theorem complete (h : (e.complete i []).isComplete i = true)
    (hw : ((e.complete i []).takeDeferred i).1 = [w]) :
    Reaches ⟨⟨e, ()⟩, .program (.elaborate call p i) (.done (.ok [])), ws⟩
      ⟨⟨((e.complete i []).takeDeferred i).2, ()⟩, .stage (.release call ⟨i, .ok i⟩ [w]), ws⟩ := by
  refine .step ?_
  simp only [Service.step, Service.stepProgram, Service.programEnded, h, if_pos, hw]
  rfl

theorem wake (h : (e.release w).1 = true) :
    Reaches ⟨⟨e, ()⟩, .stage (.release call o (w :: rest)), ws⟩
      ⟨⟨(e.release w).2, ()⟩, .program (.resume call o w rest) (spiral.resume w), ws⟩ := by
  have hwake : spiral.step ⟨⟨e, ()⟩, .stage (.release call o (w :: rest)), ws⟩ =
      ⟨⟨(e.release w).2, ()⟩, .stage (.resume call o w rest), ws⟩ := by
    simp only [Service.step, Service.stepStage, h]
    rfl
  exact .trans (.step hwake) (.step rfl)

end

/-- The second instance refers back to the first. -/
theorem refers (H : Spiral k e) {a b : InstanceId} (hba : b ≠ a) {role : Role}
    {next : Except TemplateError InstanceId →
      Program Unit (role.Result (Except TemplateError InstanceId))} :
    Reaches ⟨⟨e, ()⟩, .stage (.resolve ⟨[frameFor 1 (n + 1) b, frameFor 0 n a],
        askFor 0 (pointer n) .reference, none⟩), ⟨role, next⟩ :: ws⟩
      ⟨⟨e.defer b a, ()⟩, .program role (next (.ok a)), ws⟩ := by
  have hattempt : Chain.findAttempt? ⟨0⟩ [.type (pointer n)] none
      [frameFor 1 (n + 1) b, frameFor 0 n a] = some (frameFor 0 n a, []) :=
    (if_neg (nomatch ·.1)).trans (if_pos ⟨rfl, rfl, rfl⟩)
  have hanswer : e.answer? (spiral.symbolName ()) (askFor 0 (pointer n) .reference)
      [frameFor 1 (n + 1) b, frameFor 0 n a] (planFor 0 (pointer n)) =
      some (.ok a, e.defer b a) := (Engine.Finds.defer (f := frameFor 0 n a) hattempt rfl rfl hba).answer?_eq
  refine (H.resolve _ Nat.two_pos (containsError_pointer n)).trans (.step ?_)
  simp only [Service.step, Service.stepStage, Service.carryOutStep, H.plan Nat.two_pos, hanswer]
  rfl

/-- When the second instance goes on, one pointer more is asked for. -/
theorem goesOn {x : Instance} (hx : e.origins w = some x)
    (hd : x.deduced = [.type (pointer n)]) : ∃ ws',
    Reaches ⟨⟨e, ()⟩, .program (.resume call o w rest) (spiral.resume w), ws⟩
      (asking ws' (n + 1) e.countRequest) := by
  have hasks : (e.inst? w).bind (fun x => spiralGoesOn x.deduced) =
      some (askFor 0 (pointer (n + 1))) := by
    obtain ⟨y, hy, rfl⟩ := Option.map_eq_some_iff.mp hx
    have hyd : y.deduced = [.type (pointer n)] := hd
    rw [hy, Option.bind_some, hyd]
    rfl
  have hread : Reaches ⟨⟨e, ()⟩, .program (.resume call o w rest) (spiral.resume w), ws⟩
      ⟨⟨e, ()⟩, .program (.resume call o w rest)
        (.asking [] (.ok ()) ((e.inst? w).bind fun x => spiralGoesOn x.deduced)), ws⟩ := .step rfl
  rw [hasks] at hread
  exact ⟨_, hread.trans (.step rfl)⟩

/-- Once the second instance refers back to the first, both get their members and the second goes
on. -/
theorem returns (H : Spiral k e) {a b : InstanceId} {x y : Instance} (hx : e.arena a = some x)
    (hy : e.arena b = some y) (hba : b ≠ a) (hdeferred : x.deferred = []) (hxw : x.waitingOn = 0)
    (hyw : y.waitingOn = 0) :
    Reaches ⟨⟨e, ()⟩, .stage (.resolve ⟨[frameFor 1 (n + 1) b, frameFor 0 n a],
        askFor 0 (pointer n) .reference, none⟩),
        waitingFor 1 (n + 1) [frameFor 0 n a] b :: waitingFor 0 n [] a :: ws⟩
      ⟨⟨parked e a b, ()⟩,
        .program (.resume (callFor 0 n []) ⟨a, .ok a⟩ b []) (spiral.resume b), ws⟩ := by
  obtain ⟨hsuspended, hcomplete, htaken, hgoes⟩ := parks hx hy hba hdeferred hxw hyw
  have hanswer {e : Engine} : Reaches
      ⟨⟨e, ()⟩, .stage (.release (callFor 1 (n + 1) [frameFor 0 n a]) ⟨b, .ok b⟩ []),
        waitingFor 0 n [] a :: ws⟩
      ⟨⟨e, ()⟩, .program (.elaborate (callFor 0 n []) (planFor 0 (pointer n)) a)
        (.done (.ok [])), ws⟩ := .step rfl
  exact (H.refers _ hba).trans ((suspend _ hsuspended).trans
    (hanswer.trans ((complete _ hcomplete htaken).trans (wake ws hgoes))))

/-- One turn. -/
theorem turn (H : Spiral k e) :
    ∃ e' ws', Spiral (k + 2) e' ∧ Reaches (asking ws k e) (asking ws' (k + 2) e') := by
  obtain ⟨e₁, H₁, hsize₁, harena₁, h₁⟩ :=
    H.makes (c := []) (d := 0) ws (by omega) (Nat.le_refl k) (by decide) rfl
  generalize ha : (⟨e.insts.size⟩ : InstanceId) = a at harena₁ h₁
  obtain ⟨e₂, H₂, -, harena₂, h₂⟩ :=
    H₁.countRequest.makes (c := [frameFor 0 k a]) (d := 1) (waitingFor 0 k [] a :: ws)
      (by omega) (Nat.le_refl (k + 1)) (Nat.lt_succ_self 1) rfl
  generalize hb : (⟨e₁.countRequest.insts.size⟩ : InstanceId) = b at harena₂ h₂
  have hba : b ≠ a := by
    subst ha hb
    intro h
    have : e₁.insts.size = e.insts.size := congrArg InstanceId.index h
    omega
  have h₃ := H₂.countRequest.returns (n := k) ws
    ((congrFun harena₂ a).trans ((Arena.put_of_ne hba.symm).trans (harena₁ ▸ Arena.put_self)))
    (harena₂ ▸ Arena.put_self) hba rfl rfl rfl
  have hkeeps := keeps_parked e₂.countRequest a b
  have H₃ : Spiral (k + 2) (parked e₂.countRequest a b) :=
    H₂.countRequest.of_keeps hkeeps (decls_parked ..)
  generalize parked e₂.countRequest a b = e₃ at h₃ hkeeps H₃
  obtain ⟨ws', h₄⟩ : ∃ ws', Reaches
      ⟨⟨e₃, ()⟩, .program (.resume (callFor 0 k []) ⟨a, .ok a⟩ b []) (spiral.resume b), ws⟩
      (asking ws' (k + 2) e₃.countRequest) := by
    have hb₃ : e₃.origins b = some (e₁.countRequest.made (askFor 1 (pointer (k + 1)))
        [frameFor 0 k a] (planFor 1 (pointer (k + 1)))).origin := by
      rw [hkeeps.origins, ← Engine.map_origin_arena]
      exact congrArg (Option.map Instance.origin) ((congrFun harena₂ b).trans Arena.put_self)
    exact goesOn ws hb₃ rfl
  refine ⟨_, ws', H₃.countRequest, ?_⟩
  exact (h₁.trans (.trans (.step rfl) h₂)).trans (.trans (.step rfl) (h₃.trans h₄))

/-! ### The run -/

variable {config : EngineConfig} (hconfig : 2 ≤ config.recursionLimit)

include hconfig

theorem after_boot (k : Nat) : ∃ n e ws, k ≤ n ∧ Spiral (2 * k) e ∧
    spiral.after n (.boot config () spiralClient) = asking ws (2 * k) e := by
  induction k with
  | zero =>
    refine ⟨3, _, _, Nat.zero_le 3, ⟨hconfig, ⟨{}, {}, rfl⟩, fun {i} {x} h => ?_⟩, rfl⟩
    have hnone : (spiral.after 3 (.boot config () spiralClient)).engine.origins i = none :=
      Engine.origins_eq_none_iff.mpr (Nat.zero_le _)
    cases hnone.symm.trans h
  | succ k ih =>
    obtain ⟨n, e, ws, hk, H, h⟩ := ih
    obtain ⟨e', ws', H', m, hm⟩ := H.turn ws
    refine ⟨m + 1 + n, e', ws', by omega, H', ?_⟩
    rw [← Service.after_after, h, hm]
    rfl

theorem not_ended (n : Nat) : ¬(spiral.after n (.boot config () spiralClient)).Ended := by
  intro h
  obtain ⟨k, e, ws, hk, -, hasking⟩ := after_boot hconfig n
  rw [← Service.after_eq_of_ended h hk, hasking] at h
  obtain ⟨a, h⟩ | ⟨_, _, h⟩ := h <;> cases h

end Spiral

/-- The front end passes on its chain, and a client that asks it for an instance gets no answer,
though the limit is two. -/
theorem not_ends_spiral : spiral.PassesOn ∧ spiralClient.Passes [] ∧
    ∀ n, ¬(spiral.after n (.boot { recursionLimit := 2 } () spiralClient)).Ended :=
  ⟨spiral_passesOn, fun _ _ => ⟨rfl, fun _ => trivial⟩, Spiral.not_ended (Nat.le_refl 2)⟩

end Templates
