import Mathlib.Tactic.IntervalCases
import Templates.Proofs.Defaulting.Spelled
import Templates.Proofs.Repeating

/-!
# Spelling out a default changes nothing

The arguments of a request may leave out what the defaults of the parameters give. With or without
them a declaration matches in the same way, and the same instance is asked for
(`Semantics.Contextual.spellsOut`). So a request that is written in full is answered with the instance
that was made for the other one (`Service.reuses_spelled`).
-/

namespace Templates

variable {σ V α : Type}

theorem Semantics.selectBest_singleton (sem : Semantics σ) (c : Candidate) :
    sem.selectBest [c] = pure (.unique 0) := by
  obtain ⟨id, d, l⟩ := c
  cases l <;> rfl

namespace Engine

variable {sem : Semantics σ} {e : Engine} {d id : DeclId} {args : List Arg} {receiver : Option Ty}
  {m : ModuleId} {s s₁ : σ} {ids : List DeclId}

/-- The declarations of the overload set of `d` that are seen from a module. -/
def seenFrom (e : Engine) (d : DeclId) (m : ModuleId) : List DeclId :=
  (e.overloads d).filter fun id => (e.decl id).isVisibleFrom m

/-- What becomes of a declaration that is the only one. -/
def soleMatch (e : Engine) (id : DeclId) : Except Rejection Deduction → Matches
  | .ok ded => { matched := [(⟨id, e.decl id, ded.level⟩, ded.args)] }
  | .error why => { rejected := [(id, why)] }

theorem matchOverloads_of_unseen (h : ids.filter (fun id => (e.decl id).isVisibleFrom m) = []) :
    e.matchOverloads sem args receiver m ids s = ({}, s) := by
  induction ids generalizing s with
  | nil => rfl
  | cons id ids ih =>
    rw [List.filter_cons] at h
    split at h
    · cases h
    · next hid =>
      rw [matchOverloads, if_pos (by simpa using hid)]
      exact ih h

theorem matchOverloads_of_sole (h : ids.filter (fun id => (e.decl id).isVisibleFrom m) = [id]) :
    e.matchOverloads sem args receiver m ids s =
      (e.soleMatch id (sem.matchDecl (e.decl id) args receiver .instantiate s).1,
        (sem.matchDecl (e.decl id) args receiver .instantiate s).2) := by
  induction ids generalizing s with
  | nil => cases h
  | cons x ids ih =>
    rw [List.filter_cons] at h
    split at h
    · next hx =>
      obtain ⟨rfl, hrest⟩ := List.cons.inj h
      rw [matchOverloads, if_neg (by simpa using hx), bind_run, bind_run,
        matchOverloads_of_unseen hrest]
      rcases (sem.matchDecl (e.decl x) args receiver .instantiate s).1 with why | ded <;> rfl
    · next hx =>
      rw [matchOverloads, if_pos (by simpa using hx)]
      exact ih h

/-- A declaration that is the only one in sight is chosen if it matches. -/
theorem select_of_sole (h : e.seenFrom d m = [id]) : e.select sem d args receiver m s =
    match sem.matchDecl (e.decl id) args receiver .instantiate s with
    | (.ok ded, s) => (.ok (id, ded), s)
    | (.error why, s) => (.error (.noMatch [(id, why)]), s) := by
  rw [select, bind_run, matchOverloads_of_sole h]
  rcases sem.matchDecl (e.decl id) args receiver .instantiate s with ⟨why | ded, s₁⟩
  · rfl
  · rw [bind_run, show (e.soleMatch id (.ok ded)).matched.map (·.1) = [_] from rfl,
      sem.selectBest_singleton]
    rfl

/-- The request sees the declaration and no other one. -/
structure AsksFor (e : Engine) (q : Request) (id : DeclId) (d : Decl) (receiver : Option Ty) :
    Prop where
  decl : e.decl id = d
  receiver : q.receiver = receiver
  sole : e.seenFrom q.decl q.module = [id]

theorem AsksFor.opened {q : Request} {x : Decl} (h : e.AsksFor q id x receiver) :
    (e.opened q).AsksFor q id x receiver where
  decl := by rw [decl_opened, h.decl]
  receiver := h.receiver
  sole := by
    rw [← h.sole, seenFrom, seenFrom, overloads_opened]
    simp

/-- Declarations that come between two calls do not matter unless they are put into the set. -/
theorem AsksFor.later {e' : Engine} {q q' : Request} {x : Decl} (h : e.AsksFor q id x receiver)
    (H : e.Linked) (hg : e.Grows e') (hd : q.decl.index < e.decls.size)
    (ho : e'.overloads q.decl = e.overloads q.decl) (hdecl : q'.decl = q.decl)
    (hreceiver : q'.receiver = q.receiver) (hmodule : q'.module = q.module) :
    e'.AsksFor q' id x receiver := by
  have hsame {j : DeclId} (hj : j ∈ e.overloads q.decl) : e'.decl j = e.decl j :=
    hg.decl (overloads_lt H hd hj)
  have hseen : id ∈ e.seenFrom q.decl q.module := by simp [h.sole]
  refine ⟨(hsame (List.mem_of_mem_filter hseen)).trans h.decl, hreceiver.trans h.receiver, ?_⟩
  rw [← h.sole, hdecl, hmodule, seenFrom, seenFrom, ho]
  exact List.filter_congr fun j hj => by rw [hsame hj]

/-- The scope of an instance does not depend on how its arguments were written. -/
theorem scopeOf_resolved {q q' : Request} {resolved resolved' : List Arg} {scope : Option ScopeId}
    (hmixin : q'.mixin = q.mixin) (h : e.scopeOf sem s q resolved args = .ok scope) :
    e.scopeOf sem s q' resolved' args = .ok scope := by
  unfold scopeOf at h ⊢
  rw [hmixin]
  split at h
  · exact h
  · split at h
    · exact h
    · cases h

/-- A plan that is made with the only declaration in sight. -/
theorem plan_of_sole {q : Request} {p : Plan} (h : e.seenFrom q.decl q.module = [id])
    (hp : e.plan sem q args s = (.ok p, s₁)) : p.decl = id ∧
      sem.matchDecl (e.decl id) args q.receiver .instantiate s = (.ok p.deduction, s₁) := by
  obtain ⟨-, hselect, -⟩ := plan_eq_ok hp
  rw [select_of_sole h] at hselect
  rcases hm : sem.matchDecl (e.decl id) args q.receiver .instantiate s with ⟨why | ded, s₂⟩ <;>
    rw [hm] at hselect <;> cases hselect
  exact ⟨rfl, rfl⟩

end Engine

namespace Semantics

variable {sem : Semantics σ} {view : σ → ScopeId → Option V} {d : Decl} {args more : List Arg}
  {receiver : Option Ty} {s s' : σ}

/-- With these arguments the same is matched, and the same instance is asked for. -/
structure SpellsOut (sem : Semantics σ) (d : Decl) (receiver : Option Ty) (args args' : List Arg)
    (s s' : σ) : Prop where
  matched {mode : MatchMode} {ded : Deduction} :
    (sem.matchDecl d args receiver mode s).1 = .ok ded →
    (sem.matchDecl d args' receiver mode s').1 = .ok ded
  /-- Requests that see no other declaration have plans with one key. -/
  planned {e e' : Engine} {q q' : Request} {p : Plan} {s₁ : σ} : e.AsksFor q p.decl d receiver →
    e'.AsksFor q' p.decl d receiver → q'.mixin = q.mixin → e.plan sem q args s = (.ok p, s₁) →
    ∃ p' s₂, e'.plan sem q' args' s' = (.ok p', s₂) ∧ p'.deduction = p.deduction ∧ p'.key = p.key

namespace Contextual

variable (hsem : sem.Contextual view) (H : sem.Unmoved view) (hd : d.Accepted)
  (hthis : ∀ p ∈ d.params, p.isThis = true → receiver.isSome = true)
  (hs : SameView view s s' d.scope d.scope)
  (hmore : List.Forall₂ (sem.TakesDefault d args receiver s) (d.missing args receiver) more)
include hsem H hd hthis hs hmore

theorem plan_spelled {e e' : Engine} {q q' : Request} {p : Plan} {s₁ : σ}
    (hq : e.AsksFor q p.decl d receiver) (hq' : e'.AsksFor q' p.decl d receiver)
    (hmixin : q'.mixin = q.mixin) (hp : e.plan sem q args s = (.ok p, s₁)) :
    ∃ s₂, e'.plan sem q' (args ++ more) s' = (.ok { p with resolved := args ++ more }, s₂) := by
  obtain ⟨rfl, rfl, hsole⟩ := hq
  obtain ⟨hdecl, hreceiver, hsole'⟩ := hq'
  obtain ⟨-, hmatch⟩ := Engine.plan_of_sole hsole hp
  obtain ⟨-, hselect, hscope⟩ := Engine.plan_eq_ok hp
  have hmatch' := hsem.matchDecl_spelled H hd hthis (congrArg Prod.fst hmatch) hs hmore
  rcases hrun : sem.matchDecl (e.decl p.decl) (args ++ more) q.receiver .instantiate s' with ⟨x, s₂⟩
  rw [hrun] at hmatch'
  obtain rfl : x = _ := hmatch'
  refine ⟨s₂, ?_⟩
  rw [Engine.plan_run, hselect] at hp
  rw [Engine.plan_run, Engine.select_of_sole hsole', hdecl, hreceiver, hrun]
  dsimp only at hp ⊢
  rw [hdecl, hmixin]
  split at hp
  · cases hp
  · next hmixinOnly =>
    rw [if_neg hmixinOnly, Engine.scopeOf_resolved hmixin (hsem.scopeOf hscope)]
    rfl

/-- **Spelling out a default changes nothing.** Where nothing pins the parameters that are missing, the
defaults that they take can be given as arguments. The front end answers by what is visible, and the
scope of the declaration shows the same when they are given. -/
theorem spellsOut : sem.SpellsOut d receiver args (args ++ more) s s' where
  matched h := hsem.matchDecl_spelled H hd hthis h hs hmore
  planned hq hq' hmixin hp := by
    obtain ⟨s₂, hp'⟩ := hsem.plan_spelled H hd hthis hs hmore hq hq' hmixin hp
    exact ⟨_, s₂, hp', rfl, rfl⟩

end Contextual

end Semantics

/-- **An instance is shared by both spellings** of a request that sees no other declaration. -/
theorem Service.reuses_spelled {svc : Service σ} {view : σ → ScopeId → Option V}
    (hsem : svc.toSemantics.Contextual view) (H : svc.toSemantics.Unmoved view)
    {config : EngineConfig} {s s₁ s₂ : σ} {prog : Program σ α} {k l n : Nat} {i : InstanceId}
    {id : DeclId} {d : Decl} {sites : List SiteArg} {args more : List Arg} {receiver : Option Ty}
    {q : Request} {gagged : Bool} {role : Role}
    {next : Except TemplateError InstanceId → Program σ (role.Result α)}
    (hk : (svc.after k (.boot config s prog)).AsksAtTop q)
    (ha : svc.Answered (.boot config s prog) k n q (.ok i)) (hn : n < l)
    (hl : (svc.after l (.boot config s prog)).control =
      .program role (.request [] { q with args := sites, gagged := gagged } next))
    (ho : (svc.after l (.boot config s prog)).engine.overloads q.decl =
      (svc.after k (.boot config s prog)).engine.overloads q.decl)
    (hq : (svc.after k (.boot config s prog)).engine.AsksFor q id d receiver) (hd : d.Accepted)
    (hthis : ∀ p ∈ d.params, p.isThis = true → receiver.isSome = true)
    (hargs : svc.resolveRequest q (svc.after k (.boot config s prog)).run.service = (.ok args, s₁))
    (hargs' : svc.resolveRequest { q with args := sites, gagged := gagged }
      (svc.after l (.boot config s prog)).run.service = (.ok (args ++ more), s₂))
    (hs : SameView view s₁ s₂ d.scope d.scope)
    (hmore : List.Forall₂ (svc.toSemantics.TakesDefault d args receiver s₁)
      (d.missing args receiver) more) :
    svc.Reuses (.boot config s prog) l { q with args := sites, gagged := gagged } i := by
  obtain ⟨_, _, p, _, hargs₁, hlt, hplan, htop, hi⟩ := leaves_of_answered hk ha
  cases hargs.symm.trans hargs₁
  have hkl : k ≤ l := by
    obtain ⟨-, -, -, -, hkn, -⟩ := ha
    omega
  have hgrows : (svc.after k (.boot config s prog)).engine.Grows _ := grows_after svc hkl
  have hq' : (svc.after l (.boot config s prog)).engine.AsksFor
      { q with args := sites, gagged := gagged } id d receiver :=
    hq.later (linked_after svc k) hgrows hlt ho rfl rfl rfl
  obtain ⟨rfl, -⟩ := Engine.plan_of_sole hq.opened.sole hplan
  obtain ⟨s₃, hplan'⟩ := hsem.plan_spelled H hd hthis hs hmore hq.opened hq'.opened rfl hplan
  exact reuses_of_atTop hl hargs' (hlt.trans_le hgrows.decls) hplan' htop hn hi

theorem nesting_unmoved : nesting.Unmoved visible where
  evaluate _ _ _ _ _ h := h
  openWith names s c d v h := by
    rw [nesting_openWith]
    exact visible_append h _

/-- `D(this R, T, int n, U : T* = T*, int k = n, S...)`. -/
def shorthand : Decl where
  name := "D"
  params := [{ name := "R", kind := .this {} }, .ofType "T" none none, .ofValue "n" .int none,
    .ofType "U" (some (.ptr (.param ⟨1⟩))) (some (.ptr (.param ⟨1⟩))),
    { name := "k", kind := .value { ty := .int, default := some ⟨0⟩ } }, .ofTuple "S"]

/-- `D!(char, 3)` is `D!(char, 3, char*, 3)`, also when it is matched after the other. -/
theorem spellsOut_shorthand :
    let args : List Arg := [.type .char, .value .int (.int 3)]
    let more : List Arg := [.type (.ptr .char), .value .int (.int 3)]
    let s' := (nesting.matchDecl shorthand args (some .bool) .instantiate [[]]).2
    nesting.Contextual visible ∧ nesting.Unmoved visible ∧ shorthand.Accepted ∧
      SameView visible [[]] s' ⟨0⟩ ⟨0⟩ ∧ s' ≠ [[]] ∧
      List.Forall₂ (nesting.TakesDefault shorthand args (some .bool) [[]])
        (shorthand.missing args (some .bool)) more ∧
      (nesting.matchDecl shorthand args (some .bool) .instantiate [[]]).1 =
        .ok ⟨.exact, .type .bool :: args ++ more ++ [.tuple []]⟩ ∧
      (nesting.matchDecl shorthand (args ++ more) (some .bool) .instantiate s').1 =
        .ok ⟨.exact, .type .bool :: args ++ more ++ [.tuple []]⟩ := by
  intro args more s'
  have haccepted : shorthand.Accepted := ⟨shorthand, rfl⟩
  have hs : SameView visible [[]] s' ⟨0⟩ ⟨0⟩ := ⟨[], rfl, rfl⟩
  have hmore : List.Forall₂ (nesting.TakesDefault shorthand args (some .bool) [[]])
      (shorthand.missing args (some .bool)) more :=
    .cons ⟨_, _, rfl, .default rfl rfl rfl⟩ (.cons ⟨_, _, rfl, .default rfl rfl rfl⟩ .nil)
  have hok : (nesting.matchDecl shorthand args (some .bool) .instantiate [[]]).1 =
      .ok ⟨.exact, .type .bool :: args ++ more ++ [.tuple []]⟩ := rfl
  have hne : s' ≠ [[]] := fun h => absurd (congrArg List.length h) (by decide)
  exact ⟨nesting_contextual, nesting_unmoved, haccepted, hs, hne, hmore, hok,
    (nesting_contextual.spellsOut nesting_unmoved haccepted (fun _ _ _ => rfl) hs hmore).matched hok⟩

/-- A front end that has nothing to elaborate. -/
def spelling : Service (List Names) where
  toSemantics := nesting
  elaborate _ _ := .done (.ok [])

/-- `b.D!(char, 3)`, where `b` is a `bool`. -/
def askShort : Request where
  decl := ⟨0⟩
  args := [.type .char, .value { ty := .int, const := .int 3 }]
  receiver := some .bool

/-- `b.D!(char, 3, char*, 3)`. -/
def askInFull : Request :=
  { askShort with
    args := askShort.args ++ [.type (.ptr .char), .value { ty := .int, const := .int 3 }] }

def askShortBoot : Machine (List Names) (Except TemplateError InstanceId) :=
  .boot { digest := fun _ _ => default } [[]] (.command (.declare shorthand) fun _ =>
    .request [] askShort fun _ => .request [] askInFull .done)

/-- The request that is written in full gets the instance that was made for the other one. -/
theorem reuses_spelled_shorthand :
    (spelling.after 1 askShortBoot).AsksAtTop askShort ∧
      spelling.Answered askShortBoot 1 7 askShort (.ok ⟨0⟩) ∧
      spelling.Reuses askShortBoot 8 askInFull ⟨0⟩ := by
  have hk : (spelling.after 1 askShortBoot).AsksAtTop askShort := ⟨rfl, _, rfl⟩
  have ha : spelling.Answered askShortBoot 1 7 askShort (.ok ⟨0⟩) := by
    refine ⟨.client, [], _, rfl, by decide, fun j hj hj' => ⟨[], ?_⟩, rfl, rfl⟩
    interval_cases j <;> rfl
  have hl : (spelling.after 8 askShortBoot).control =
      .program .client (.request [] askInFull .done) := rfl
  refine ⟨hk, ha, Service.reuses_spelled nesting_contextual nesting_unmoved hk ha (by decide) hl rfl
    ⟨rfl, rfl, rfl⟩ ⟨shorthand, rfl⟩ (fun _ _ _ => rfl) rfl rfl ⟨[], rfl, rfl⟩ ?_⟩
  exact .cons ⟨_, _, rfl, .default rfl rfl rfl⟩ (.cons ⟨_, _, rfl, .default rfl rfl rfl⟩ .nil)

end Templates
