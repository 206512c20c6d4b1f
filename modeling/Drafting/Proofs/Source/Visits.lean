import Drafting.Proofs.Source.ClassBody

namespace Drafting.Source.ClassText

variable {mode : Mode} {text : List Char} {line : Line} {lines : List Line}

def visits : Mode → List Line → List (Mode × Line)
  | _, [] => []
  | mode, line :: lines => (mode, line) :: visits (step mode line.text).mode lines

theorem map_snd_visits (mode : Mode) (lines : List Line) :
    (visits mode lines).map Prod.snd = lines := by
  induction lines generalizing mode with
  | nil => rfl
  | cons line lines ih => rw [visits, List.map_cons, ih]

theorem readFrom_eq (mode : Mode) (lines : List Line) :
    readFrom mode lines =
      ((visits mode lines).flatMap fun v => (step v.1 v.2.text).statements,
        ((visits mode lines).filter fun v => !(step v.1 v.2.text).understood).map
          fun v => v.2.number) := by
  induction lines generalizing mode with
  | nil => rfl
  | cons line lines ih =>
      rw [readFrom, ih, visits, List.flatMap_cons, List.filter_cons]
      cases (step mode line.text).understood <;> rfl

def Mode.owner? : Mode → Option String
  | .outside => none
  | .declared name => some name
  | .inside name => some name

def isTopLevel : Mode → List Char → Bool
  | .inside _, _ => false
  | .declared _, '{' :: _ => false
  | _, _ => true

theorem step_of_isTopLevel (h : isTopLevel mode text) : step mode text = outsideStep text := by
  cases mode with
  | outside => rfl
  | inside owner => cases h
  | declared owner =>
      cases text with
      | nil => rfl
      | cons c s =>
          by_cases hc : c = '{'
          · subst hc
            cases h
          · simp [step, hc]

theorem exists_bodyStep (h : isTopLevel mode text = false) :
    ∃ owner body, mode.owner? = some owner ∧ step mode text = bodyStep owner body := by
  rw [isTopLevel.eq_def] at h
  split at h
  next owner => exact ⟨owner, text, rfl, rfl⟩
  next owner body => exact ⟨owner, body, rfl, rfl⟩
  next => cases h

def topLines (mode : Mode) (lines : List Line) : List (List Char) :=
  ((visits mode lines).filter fun v => isTopLevel v.1 v.2.text).map fun v => v.2.text

theorem topLines_cons_of_isTopLevel (h : isTopLevel mode line.text) :
    topLines mode (line :: lines) =
      line.text :: topLines (outsideStep line.text).mode lines := by
  simp only [topLines, visits, List.filter_cons, h, if_true, List.map_cons, step_of_isTopLevel h]

theorem topLines_cons_of_not (h : isTopLevel mode line.text = false) :
    topLines mode (line :: lines) = topLines (step mode line.text).mode lines := by
  simp only [topLines, visits, List.filter_cons, h, Bool.false_eq_true, if_false]

def heading? (text : List Char) : Option (String × Option String) :=
  (declaration? text).map fun d => (d.name, d.parent)

def Statement.heading? : Statement → Option (String × Option String)
  | .declare name parent => some (name, parent)
  | _ => none

def Statement.asked? : Statement → Option Relation
  | .relation r => some r
  | _ => none

theorem filterMap_member {β : Type} {f : Statement → Option β} {owner : String}
    (hf : ∀ m, f (.member owner m) = none) (members : List Member) :
    (members.map (Statement.member owner)).filterMap f = [] :=
  List.filterMap_eq_nil_iff.2 (List.forall_mem_map.2 fun m _ => hf m)

inductive Says (text : List Char) : Step → Prop
  | declare {d : Declaration} {members : List Member} {understood : Bool} {mode : Mode}
      (hd : declaration? text = some d) (hm : ∀ owner ∈ mode.owner?, owner = d.name) :
      Says text ⟨.declare d.name d.parent :: members.map (.member d.name), understood, mode⟩
  | relation {r : Relation} (hd : declaration? text = none) (hr : relation? text = some r) :
      Says text ⟨[.relation r], true, .outside⟩
  | title {t : List Char} (hd : declaration? text = none) (hr : relation? text = none) :
      Says text ⟨[.title (String.ofList t)], true, .outside⟩
  | nothing (hd : declaration? text = none) (hr : relation? text = none) :
      Says text ⟨[], false, .outside⟩

theorem owner_mode_bodyStep (owner : String) (body : List Char) :
    ∀ name ∈ (bodyStep owner body).mode.owner?, name = owner := by
  intro name h
  rw [show (bodyStep owner body).mode =
    if (Text.cut '}' body).2.isSome then .outside else .inside owner from rfl] at h
  split at h
  · cases h
  · exact (Option.some.inj h).symm

theorem says_outsideStep (text : List Char) : Says text (outsideStep text) := by
  rw [outsideStep]
  split
  next d hd =>
    obtain ⟨name, parent, body⟩ := d
    cases body with
    | none => exact @Says.declare _ _ [] _ _ hd (by simp [Mode.owner?])
    | some body =>
        have hbody := statements_bodyStep name body
        dsimp only
        rw [hbody]
        exact .declare hd (owner_mode_bodyStep name body)
  next hd =>
    split
    next r hr => exact .relation hd hr
    next hr =>
      split
      next => exact .title hd hr
      next => exact .nothing hd hr

section

variable {s : Step}

theorem Says.filterMap_heading? (h : Says text s) :
    s.statements.filterMap Statement.heading? = (heading? text).toList := by
  cases h with
  | declare hd =>
      rw [heading?, hd, List.filterMap_cons_some (f := Statement.heading?) rfl,
        filterMap_member fun _ => rfl]
      rfl
  | relation hd | title hd | nothing hd => simp [heading?, hd, Statement.heading?]

theorem Says.filterMap_asked? (h : Says text s) :
    s.statements.filterMap Statement.asked? = (relation? text).toList := by
  cases h with
  | declare hd =>
      have hr : relation? text = none := by
        by_contra hr
        simp [declaration?_eq_none_of_relation? (Option.isSome_iff_ne_none.2 hr)] at hd
      rw [hr, List.filterMap_cons_none rfl, filterMap_member fun _ => rfl]
      rfl
  | relation _ hr | title _ hr | nothing _ hr => simp [hr, Statement.asked?]

end

end Drafting.Source.ClassText
