import Jobflow.Proofs.Workflow.Variables
import Jobflow.Workflow.Library

/-!
Looking a definition up. A definition that is remembered is the answer; otherwise the answer is
what the file of the name says, and a definition is remembered if there is one.
-/

namespace Jobflow.Workflow.Shelf

open Jobflow.Files (Tree)

variable {α : Type} {shelf : Shelf α} {name : String} {remembered : Dict α} {tree tree' : Tree}

/-- What the files say about a name. -/
def fresh (shelf : Shelf α) (name : String) (tree : Tree) : Except FlowError α :=
  if isUnsafe name then .error (.notFound (shelf.label name))
  else match tree.readText (shelf.pathFor name) with
    | .error e => .error (shelf.unreadable name e)
    | .ok text => shelf.parse name text

theorem fresh_of_isUnsafe (h : isUnsafe name = true) :
    shelf.fresh name tree = .error (.notFound (shelf.label name)) := if_pos h

theorem fresh_of_error {e : Files.IoError} (hname : isUnsafe name = false)
    (h : tree.readText (shelf.pathFor name) = .error e) :
    shelf.fresh name tree = .error (shelf.unreadable name e) := by
  rw [fresh, hname, h]
  rfl

theorem fresh_of_ok {text : String} (hname : isUnsafe name = false)
    (h : tree.readText (shelf.pathFor name) = .ok text) :
    shelf.fresh name tree = shelf.parse name text := by
  rw [fresh, hname, h]
  rfl

theorem fresh_eq_ok_iff {definition : α} :
    shelf.fresh name tree = .ok definition ↔ isUnsafe name = false ∧
      ∃ text, tree.readText (shelf.pathFor name) = .ok text ∧
        shelf.parse name text = .ok definition := by
  cases hname : isUnsafe name with
  | true => simp [fresh_of_isUnsafe hname]
  | false =>
    cases hread : tree.readText (shelf.pathFor name) with
    | error e => simp [fresh_of_error hname hread]
    | ok text => simp [fresh_of_ok hname hread]

theorem fresh_congr (h : ¬ isUnsafe name →
    tree'.readText (shelf.pathFor name) = tree.readText (shelf.pathFor name)) :
    shelf.fresh name tree' = shelf.fresh name tree := by
  unfold fresh
  split
  · rfl
  · next hname => rw [h hname]

theorem consult_of_remembered {definition : α} (h : Dict.find? name remembered = some definition) :
    shelf.consult name remembered tree = (.ok definition, remembered) := by
  simp [consult, get, Program.run, Library.act, h]

/-- What is remembered after the files have been asked. -/
def kept (name : String) (remembered : Dict α) : Except FlowError α → Dict α
  | .ok definition => Dict.insert name definition remembered
  | .error _ => remembered

theorem consult_of_new (h : Dict.find? name remembered = none) :
    shelf.consult name remembered tree =
      (shelf.fresh name tree, kept name remembered (shelf.fresh name tree)) := by
  unfold consult get
  cases hname : isUnsafe name with
  | true => simp [Program.run, Library.act, h, fresh_of_isUnsafe hname, kept]
  | false =>
    cases hread : tree.readText (shelf.pathFor name) with
    | error e => simp [Program.run, Library.act, h, hread, fresh_of_error hname hread, kept]
    | ok text =>
      rw [fresh_of_ok hname hread]
      cases hparse : shelf.parse name text <;>
        simp [Program.run, Library.act, h, hread, hparse, kept]

end Jobflow.Workflow.Shelf
