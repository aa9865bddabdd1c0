import Mathlib.Data.List.Infix
import TradingLab.Core.Types

namespace ptl.storage

/-- The files an artifact store works on. A file is written to a temporary and
    renamed into place, so it is replaced whole or not at all. -/
structure IFileSystem (F : Type) where
  replace : F → String → String → Result Unit × F
  present : F → String → Bool
  read : F → String → Result String

/-- A file that was replaced is there, with what was written. -/
def IFileSystem.Keeps {F : Type} (fs : IFileSystem F) : Prop :=
  ∀ files path text files', fs.replace files path text = (.ok (), files') →
    fs.present files' path = true ∧ fs.read files' path = .ok text

/-- Files in memory. -/
def memoryFiles : IFileSystem (List (String × String)) where
  replace files path text := (.ok (), (path, text) :: files)
  present files path := (files.lookup path).isSome
  read files path :=
    match files.lookup path with
    | none => .error (make_error .NotFound "no such file" path)
    | some text => .ok text

theorem memoryFiles_keeps : memoryFiles.Keeps := by
  intro files path text files' hreplace
  cases hreplace
  simp [memoryFiles]

structure ArtifactStore (F : Type) where
  root : String
  files : F

variable {F : Type} (fs : IFileSystem F)

def ArtifactStore.path_for (s : ArtifactStore F) (key : String) : Result String :=
  if key = "" then .error (bad "artifact key cannot be empty")
  else if ['.', '.'] <:+: key.toList then .error (bad "artifact key must not contain '..'" key)
  else if key.toList.head? = some '/' then .error (bad "artifact key must be relative" key)
  else
    .ok ((if s.root = "" ∨ s.root.toList.getLast? = some '/' then s.root else s.root ++ "/") ++ key ++
      ".json")

def ArtifactStore.put (s : ArtifactStore F) (key json : String) : Result String × ArtifactStore F :=
  match s.path_for key with
  | .error e => (.error e, s)
  | .ok path =>
    let (written, files) := fs.replace s.files path json
    (written.map fun _ => path, { s with files })

def ArtifactStore.get (s : ArtifactStore F) (key : String) : Result String :=
  match s.path_for key with
  | .error e => .error e
  | .ok path =>
    if ¬ fs.present s.files path then .error (make_error .NotFound "no such artifact" key)
    else fs.read s.files path

def ArtifactStore.contains (s : ArtifactStore F) (key : String) : Bool :=
  match s.path_for key with
  | .error _ => false
  | .ok path => fs.present s.files path

/-- What was put is there to get. -/
theorem ArtifactStore.get_put {fs : IFileSystem F} (hkeeps : fs.Keeps) {s s' : ArtifactStore F}
    {key json path : String} (hput : s.put fs key json = (.ok path, s')) :
    s'.contains fs key = true ∧ s'.get fs key = .ok json := by
  unfold ArtifactStore.put at hput
  split at hput
  · cases hput
  · rename_i path' hpath
    have hsame : ∀ files, ({ s with files } : ArtifactStore F).path_for key = .ok path' := fun _ => hpath
    cases hreplace : fs.replace s.files path' json with
    | mk result files =>
      rw [hreplace] at hput
      cases result with
      | error e => cases hput
      | ok _ =>
        cases hput
        obtain ⟨hpresent, hread⟩ := hkeeps _ _ _ _ hreplace
        constructor
        · rw [ArtifactStore.contains, hsame]
          exact hpresent
        · rw [ArtifactStore.get, hsame]
          simp only [hpresent, not_true_eq_false, if_false]
          exact hread

end ptl.storage
