import Templates.Proofs.Machine.Becomes
import Templates.Proofs.Selection.Overloads

/-!
# What leaves the links between overloads alone

Only the two commands that declare something touch the links between declarations
(`Service.Steps.sameLinks`, `Command.run_decls`). Instances that come into the cache of a declaration and leave
it do not.
-/

namespace Templates

variable {σ α : Type}

namespace Engine

variable {e e' e'' : Engine} {names : SymbolId → String} {q : Request} {c : Chain} {p : Plan}
  {i : InstanceId}

/-! ## Answers and instances -/

theorem answer?_decls {a : Except TemplateError InstanceId}
    (h : e.answer? names q c p = some (a, e')) : e'.decls = e.decls := by
  cases finds_of_answer? h with
  | recursive | reference | failed | busy | tooDeep => rfl
  | @defer f _ i =>
    obtain ⟨_, he⟩ := e.defer_frame i f.inst
    rw [he]
  | @cached i =>
    obtain ⟨_, he⟩ := e.countHit.touch_frame i q
    rw [he]
    rfl

theorem create_sameLinks : e.SameLinks (e.create q c p).2 := by
  have h : e.SameLinks (e.modifyDecl p.decl fun d =>
      { d with cache := d.cache.insert (e.made q c p).digest ⟨e.insts.size⟩ }) :=
    .modifyDecl fun _ => rfl
  exact h

theorem evict_sameLinks (i : InstanceId) : e.SameLinks (e.evict i) := by
  obtain h | ⟨x, _, cache, -, -, -, h⟩ := e.evict_cases i <;> rw [h]
  have h : e.SameLinks (e.modifyDecl x.decl fun d => { d with cache := cache }) :=
    .modifyDecl fun _ => rfl
  exact h

theorem fail_sameLinks (names : SymbolId → String) (i : InstanceId) (reason : String) (span : Span)
    (c : Chain) : e.SameLinks (e.fail names i reason span c).2 := by
  rw [fail_eq]
  obtain hf | hf := e.failed_cases i <;> rw [hf]
  · rfl
  · exact evict_sameLinks i

theorem takeDeferred_sameLinks (i : InstanceId) : e.SameLinks (e.takeDeferred i).2 := .refl e

theorem settle_sameLinks {result : Except Failure Unit} :
    e.SameLinks (e.settle names i result) := by
  unfold settle
  split
  · rfl
  · exact fail_sameLinks ..

end Engine

/-- The command declares something. -/
def Command.Declares : Command → Prop
  | .declare _ | .overload _ _ => True
  | _ => False

theorem Command.run_decls {e : Engine} {c : Command} (hc : ¬c.Declares) :
    (c.run e).2.decls = e.decls := by
  cases c with
  | declare | overload => exact absurd trivial hc
  | addRoot m =>
    change (e.addRoot m).decls = _
    obtain ⟨-, h⟩ | h := e.addRoot_cases m <;> rw [h]
  | claim i m =>
    change (e.claimCodegen i m).2.decls = _
    obtain ⟨_, h⟩ := e.claimCodegen_frame i m
    rw [h]
  | recordImport | addDiagnostic | pushGag | popGag | flush => rfl

namespace Service

variable {svc : Service σ} {r : Run σ} {ws : List (Waiting σ α)} {call : Call} {e : Engine}
  {a : Except TemplateError InstanceId} {c : Control σ α} {m : Machine σ α} {s : σ}

theorem giveAnswer_decls : (giveAnswer ⟨e, s⟩ call a ws).engine.decls = e.decls := by
  cases ws with
  | nil => rfl
  | cons w ws =>
    unfold giveAnswer
    cases call.mark <;> rfl

theorem openCall_decls {chain : Chain} {q : Request} :
    (openCall r chain q ws).engine.decls = r.engine.decls := by
  rw [openCall_eq]
  exact r.engine.decls_opened q

/-- A step without a command keeps the links. -/
theorem Steps.sameLinks (h : svc.Steps r ws c m)
    (hc : ∀ (role : Role) (cmd : Command) (k : cmd.Reply → Program σ (role.Result α)),
      c ≠ .program role (.command cmd k)) : r.engine.SameLinks m.engine := by
  have of_decls {e : Engine} (h : e.decls = r.engine.decls) : r.engine.SameLinks e := .of_decls h
  cases h with
  | unresolved | refuse => exact of_decls giveAnswer_decls
  | undeclared => cases ws <;> rfl
  | answer _ ha => exact of_decls (giveAnswer_decls.trans (Engine.answer?_decls ha))
  | create => exact Engine.create_sameLinks
  | finish => exact of_decls giveAnswer_decls
  | fail h =>
    obtain rfl := congrArg Prod.snd h
    exact (Engine.fail_sameLinks ..).trans (Engine.takeDeferred_sameLinks _)
  | settle h =>
    subst h
    exact Engine.settle_sameLinks.trans (Engine.takeDeferred_sameLinks _)
  | dangling | command => exact absurd rfl (hc _ _ _)
  | request => exact of_decls openCall_decls
  | openScope | release | wake | suspend | complete | resolve | elaborate | resume | done | halt
  | read | service | unasked => rfl

end Service
end Templates
