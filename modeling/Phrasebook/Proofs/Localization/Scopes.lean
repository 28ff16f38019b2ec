import Phrasebook.Localization.Request

/-!
Scopes in any nesting. What a piece of work sees of the locale in effect is what the scopes that stand
around it in its text say, and scopes end with what they are around, also where that breaks off.
-/

set_option autoImplicit false

namespace Phrasebook

theorem Ambient.setDefault_eq (ambient : Ambient) (tag : String) :
    ambient.setDefault tag =
      if Locale.isRecognized tag then .ok { ambient with fallback := tag } else .error ⟨tag⟩ := by
  unfold Ambient.setDefault Locale.validate
  cases Locale.isRecognized tag <;> rfl

theorem Ambient.current_eq (ambient : Ambient) :
    ambient.current = ambient.scopes.head?.getD ambient.fallback := by
  simp [Ambient.current]

inductive Work
  | nothing
  | look
  | choose (tag : String)
  | breakOff
  | andThen (first second : Work)
  | within (locale : String) (body : Work)
  | localized (request : Request) (body : Work)
  /-- Goes on after the body also where that breaks off. -/
  | attempt (body : Work)

namespace Work

inductive Note
  | saw (locale : String)
  | chose (tag : String)
  | refused (unknown : Locale.UnknownTag)
  deriving DecidableEq, Repr

abbrev Noting := Handling Unit (StateM (List Note))

def take (note : Note) : Noting Unit := modifyThe (List Note) (· ++ [note])

def adopt (tag : String) : Except Locale.UnknownTag Ambient → Noting Unit
  | .ok changed => do
    set changed
    take (.chose tag)
  | .error unknown => take (.refused unknown)

def perform : Work → Noting Unit
  | nothing => pure ()
  | look => do take (.saw (← getThe Ambient).current)
  | choose tag => do adopt tag ((← getThe Ambient).setDefault tag)
  | breakOff => throw ()
  | andThen first second => do
    first.perform
    second.perform
  | within locale body => Handling.within locale body.perform
  | localized request body => Handling.localized request body.perform
  | attempt body => try body.perform catch _ => pure ()

structure Result where
  isWhole : Bool := true
  ambient : Ambient
  notes : List Note

def resultOf (noting : Noting Unit) (ambient : Ambient) (notes : List Note) : Result :=
  let ((ended, after), taken) := (noting.run.run ambient).run notes
  ⟨ended.toBool, after, taken⟩

def run (work : Work) (ambient : Ambient) (notes : List Note) : Result :=
  resultOf work.perform ambient notes

def lastChosen (start : String) (notes : List Note) : String :=
  notes.foldl (fun last note => match note with | .chose tag => tag | _ => last) start

/-- Whether a note is what it should be where a locale is in effect: only recognized tags are chosen, and
only others refused. -/
def Note.IsTrue (inEffect : String) : Note → Prop
  | saw locale => locale = inEffect
  | chose tag => Locale.isRecognized tag = true
  | refused unknown => Locale.isRecognized unknown.tag = false

/-- Whether each note is true of the locale in effect: that of the innermost scope around the step that
takes it or, outside of all scopes, the default locale as of then. -/
def AreTrue (start : String) (notes : List (Option String × Note)) : Prop :=
  ∀ before scope note later, notes = before ++ (scope, note) :: later →
    note.IsTrue (scope.getD (lastChosen start (before.map (·.2))))

structure Account where
  notes : List (Option String × Note) := []
  fallback : String
  isWhole : Bool := true

/-- Tells what work comes to inside of a scope, or outside of all, and with the default locale that there
is before it. -/
def account (scope : Option String) (fallback : String) : Work → Account
  | nothing => { fallback }
  | look => { notes := [(scope, .saw (scope.getD fallback))], fallback }
  | choose tag =>
    if Locale.isRecognized tag then { notes := [(scope, .chose tag)], fallback := tag }
    else { notes := [(scope, .refused ⟨tag⟩)], fallback }
  | breakOff => { fallback, isWhole := false }
  | andThen first second =>
    let part := first.account scope fallback
    if part.isWhole then
      let rest := second.account scope part.fallback
      { rest with notes := part.notes ++ rest.notes }
    else part
  | within locale body => body.account (some locale) fallback
  | localized request body =>
    let inEffect := scope.getD fallback
    match request.user with
    | some locale => body.account (some (if locale = "" then inEffect else locale)) fallback
    | none => body.account (some inEffect) fallback
  | attempt body => { body.account scope fallback with isWhole := true }

section Steps

variable (ambient : Ambient) (notes : List Note)

theorem run_choose (tag : String) :
    (choose tag).run ambient notes =
      if Locale.isRecognized tag then
        { ambient := { ambient with fallback := tag }, notes := notes ++ [.chose tag] }
      else { ambient, notes := notes ++ [.refused ⟨tag⟩] } := by
  have step : (choose tag).run ambient notes =
      resultOf (adopt tag (ambient.setDefault tag)) ambient notes := rfl
  rw [step, Ambient.setDefault_eq]
  cases Locale.isRecognized tag <;> rfl

theorem run_nothing : nothing.run ambient notes = { ambient, notes } := rfl

theorem run_look :
    look.run ambient notes = { ambient, notes := notes ++ [.saw ambient.current] } := rfl

theorem run_breakOff : breakOff.run ambient notes = { isWhole := false, ambient, notes } := rfl

theorem run_andThen (first second : Work) :
    (andThen first second).run ambient notes =
      let part := first.run ambient notes
      if part.isWhole then second.run part.ambient part.notes else part := by
  unfold run resultOf
  simp only [perform, ExceptT.run_bind, StateT.run_bind]
  rcases (first.perform.run.run ambient).run notes with ⟨⟨_ | _, after⟩, taken⟩
  · rfl
  · rfl

theorem run_attempt (body : Work) :
    (attempt body).run ambient notes = { body.run ambient notes with isWhole := true } := by
  unfold run resultOf
  simp only [perform, ExceptT.run_tryCatch, StateT.run_bind]
  rcases (body.perform.run.run ambient).run notes with ⟨⟨_ | _, after⟩, taken⟩
  · rfl
  · rfl

theorem run_within (locale : String) (body : Work) :
    (within locale body).run ambient notes =
      let inside := body.run (ambient.enter locale) notes
      { inside with ambient := inside.ambient.leave } := rfl

theorem run_localized (request : Request) (body : Work) :
    (localized request body).run ambient notes =
      (within (request.locale .user ambient) body).run ambient notes := rfl

end Steps

/-- What a piece of work comes to is told from its text and from the innermost scope around it. -/
theorem run_eq (work : Work) (ambient : Ambient) (notes : List Note) :
    work.run ambient notes =
      let account := work.account ambient.scopes.head? ambient.fallback
      { isWhole := account.isWhole
        ambient := { ambient with fallback := account.fallback }
        notes := notes ++ account.notes.map (·.2) } := by
  induction work generalizing ambient notes with
  | nothing => simp [run_nothing, account]
  | look => simp [run_look, account, Ambient.current_eq]
  | choose tag =>
    rw [run_choose, account]
    split <;> simp
  | breakOff => simp [run_breakOff, account]
  | andThen first second ihFirst ihSecond =>
    rw [run_andThen, ihFirst, account]
    by_cases whole : (first.account ambient.scopes.head? ambient.fallback).isWhole = true
    · simp [whole, ihSecond]
    · simp [whole]
  | within locale body ih =>
    rw [run_within, ih, account]
    rfl
  | localized request body ih =>
    have named : request.locale .user ambient = match request.user with
        | some locale => if locale = "" then ambient.current else locale
        | none => ambient.current := by
      unfold Request.locale Request.choice
      cases request.user with
      | none => rfl
      | some locale => by_cases empty : locale = "" <;> simp [Option.filter, empty]
    rw [run_localized, run_within, ih, named, Ambient.current_eq, account]
    cases request.user <;> rfl
  | attempt body ih => rw [run_attempt, ih, account]

theorem lastChosen_append (start : String) (notes more : List Note) :
    lastChosen start (notes ++ more) = lastChosen (lastChosen start notes) more :=
  List.foldl_append

theorem fallback_account (work : Work) (scope : Option String) (fallback : String) :
    (work.account scope fallback).fallback =
      lastChosen fallback ((work.account scope fallback).notes.map (·.2)) := by
  induction work generalizing scope fallback with
  | nothing => rfl
  | look => rfl
  | choose tag =>
    rw [account]
    split <;> rfl
  | breakOff => rfl
  | andThen first second ihFirst ihSecond =>
    rw [account]
    by_cases whole : (first.account scope fallback).isWhole = true
    · simp only [whole, if_true, List.map_append, lastChosen_append]
      rw [← ihFirst, ← ihSecond]
    · simp only [whole]
      exact ihFirst scope fallback
  | within locale body ih => exact ih (some locale) fallback
  | localized request body ih =>
    rw [account]
    cases request.user with
    | none => exact ih _ fallback
    | some locale => exact ih _ fallback
  | attempt body ih => exact ih scope fallback

theorem areTrue_nil (start : String) : AreTrue start [] := by
  intro before scope note later split
  simp at split

theorem areTrue_singleton {start : String} {scope : Option String} {note : Note}
    (holds : note.IsTrue (scope.getD start)) : AreTrue start [(scope, note)] := by
  intro before around other later split
  cases before with
  | nil =>
    obtain ⟨same, -⟩ := List.cons.inj split
    obtain ⟨rfl, rfl⟩ := Prod.mk.inj same
    exact holds
  | cons first others => simp at split

theorem AreTrue.append {start : String} {notes more : List (Option String × Note)}
    (first : AreTrue start notes) (second : AreTrue (lastChosen start (notes.map (·.2))) more) :
    AreTrue start (notes ++ more) := by
  intro before scope note later split
  obtain ⟨rest, rfl, behind⟩ | ⟨rest, inside, behind⟩ := List.append_eq_append_iff.mp split
  · rw [List.map_append, lastChosen_append]
    exact second rest scope note later behind
  · cases rest with
    | nil =>
      rw [List.append_nil] at inside
      rw [← inside]
      exact second [] scope note later behind.symm
    | cons head rest =>
      obtain ⟨rfl, -⟩ := List.cons.inj behind
      exact first before scope note rest inside

/-- What is told of work from its text is true. -/
theorem areTrue_account (work : Work) (scope : Option String) (fallback : String) :
    AreTrue fallback (work.account scope fallback).notes := by
  induction work generalizing scope fallback with
  | nothing => exact areTrue_nil fallback
  | look => exact areTrue_singleton rfl
  | choose tag =>
    rw [account]
    cases known : Locale.isRecognized tag with
    | true => exact areTrue_singleton known
    | false => exact areTrue_singleton known
  | breakOff => exact areTrue_nil fallback
  | andThen first second ihFirst ihSecond =>
    rw [account]
    by_cases whole : (first.account scope fallback).isWhole = true
    · simp only [whole, if_true]
      refine (ihFirst scope fallback).append ?_
      rw [← fallback_account]
      exact ihSecond scope _
    · simp only [whole]
      exact ihFirst scope fallback
  | within locale body ih => exact ih (some locale) fallback
  | localized request body ih =>
    rw [account]
    cases request.user with
    | none => exact ih _ fallback
    | some locale => exact ih _ fallback
  | attempt body ih => exact ih scope fallback

/-- Scopes nest and end. Whatever work does, in whatever scopes and however it breaks off, each note that
it takes is true of the innermost scope that the step stands in or, outside of all scopes, of the default
locale that was set last; the scopes afterwards are those before it; and the default locale is the last
recognized tag that was set. Setting the default locale fails exactly for a tag that is not recognized,
and in a scope it does not change the locale in effect. The first default locale is the base locale. -/
theorem run_restores (work : Work) (ambient : Ambient) (notes : List Note) :
    let account := work.account ambient.scopes.head? ambient.fallback
    let result := work.run ambient notes
    result.notes = notes ++ account.notes.map (·.2) ∧
    (∀ before scope note later, account.notes = before ++ (scope, note) :: later →
      note.IsTrue (scope.getD (lastChosen ambient.fallback (before.map (·.2))))) ∧
    result.ambient.scopes = ambient.scopes ∧
    result.ambient.fallback = lastChosen ambient.fallback (account.notes.map (·.2)) ∧
    result.isWhole = account.isWhole ∧
    (∀ tag, ambient.setDefault tag =
      if Locale.isRecognized tag then .ok { ambient with fallback := tag } else .error ⟨tag⟩) ∧
    (∀ tag changed, ambient.setDefault tag = .ok changed → ambient.scopes ≠ [] →
      changed.current = ambient.current) ∧
    ({} : Ambient) = ⟨[], "zh-TW"⟩ := by
  intro account result
  have run : result = _ := run_eq work ambient notes
  refine ⟨by rw [run], areTrue_account work _ _, by rw [run], ?_, by rw [run], ambient.setDefault_eq,
    fun tag changed changes inside => ?_, rfl⟩
  · rw [run]
    exact fallback_account work _ _
  · rw [Ambient.setDefault_eq] at changes
    split at changes
    · obtain rfl := Except.ok.inj changes
      obtain ⟨scope, others, scopes⟩ := List.exists_cons_of_ne_nil inside
      simp [Ambient.current, scopes]
    · cases changes

end Work

end Phrasebook
