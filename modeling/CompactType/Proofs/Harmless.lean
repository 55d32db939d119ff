import CompactType.CommandLine.Run
import CompactType.Proofs.Paths
import Mathlib.Data.List.Basic

/-!
# What runs do to files

A run of the command line never changes a file that is there. Only creating a configuration adds
one, in a vacant place, and later runs read from it what they would assume without it.
-/

set_option autoImplicit false

namespace CompactType

open FileTree

theorem Config.read_defaultDocument : Config.read Config.defaultDocument = .ok {} := by
  decide +kernel

theorem Config.ofBytes_defaultDocument (path : String) :
    ofBytes path defaultDocument.toUTF8 = .ok {} := by
  have hText : String.fromUTF8? defaultDocument.toUTF8 = some defaultDocument := by
    rw [String.fromUTF8?, String.toUTF8_eq_toByteArray, dif_pos defaultDocument.isValidUTF8]
    rfl
  rw [ofBytes, hText]
  simp only [read_defaultDocument]

namespace CommandLine

def Invocation.path (i : Invocation) : String := i.config.getD Config.fileName

def reports (t : FileTree) (arguments : List String) : Report := ((run access arguments).run t).1

def leaves (t : FileTree) (arguments : List String) : FileTree := ((run access arguments).run t).2

def leavesAll (t : FileTree) (runs : List (List String)) : FileTree := runs.foldl leaves t

def loaded (t : FileTree) (path : String) : Except Config.LoadError Config :=
  if t.present path then
    match t.read path with
    | .ok bytes => Config.ofBytes path bytes
    | .error failure => .error (.unreadable path failure.message)
  else .ok {}

def shown (display : Show) (specs : List String) : Except Config.LoadError Config → Report
  | .error e => ⟨1, e.message ++ "\n"⟩
  | .ok config => showAll display config specs

variable {t : FileTree} {path : String} {place : List String}

theorem present_run (t : FileTree) (path : String) :
    (access.present path).run t = pure (t.present path, t) := rfl

theorem read_run (t : FileTree) (path : String) :
    (access.read path).run t = pure ((t.read path).mapError Failure.message, t) := rfl

theorem load_run (t : FileTree) (path : String) :
    (Config.load access path).run t = (loaded t path, t) := by
  rw [Config.load, loaded, StateT.run_bind, present_run, pure_bind]
  cases t.present path with
  | false => rfl
  | true =>
    simp only [if_true]
    rw [StateT.run_bind, read_run, pure_bind]
    cases t.read path <;> rfl

theorem loaded_of_absent (h : t.present path = false) : loaded t path = .ok {} := by
  rw [loaded, h]
  rfl

theorem loaded_of_file {content : ByteArray} (h : t.locate path = .file place content) :
    loaded t path = Config.ofBytes path content := by
  rw [loaded, present, FileTree.read, h]
  rfl

theorem showUnder_run (display : Show) (specs : List String) (t : FileTree) (path : String) :
    (showUnder access path display specs).run t = (shown display specs (loaded t path), t) := by
  unfold showUnder
  rw [StateT.run_bind, load_run]
  change (match loaded t path with
    | .error e => pure ⟨1, e.message ++ "\n"⟩
    | .ok config => pure (showAll display config specs) : StateM FileTree Report).run t = _
  cases loaded t path <;> rfl

theorem write_run (t : FileTree) (path content : String) :
    (access.write path content).run t =
      match t.write path content.toUTF8 with
      | .ok t' => (.ok (), t')
      | .error failure => (.error failure.message, t) := by
  change (match t.write path content.toUTF8 with
    | .ok t' => do
      set t'
      return .ok ()
    | .error failure => return .error failure.message :
      StateM FileTree (Except String Unit)).run t = _
  cases t.write path content.toUTF8 <;> rfl

theorem create_of_present (h : t.present path = true) :
    (create access path).run t = (⟨0, "File " ++ path ++ " already exists\n"⟩, t) := by
  rw [create, StateT.run_bind, present_run, pure_bind, h]
  rfl

theorem create_of_absent (h : t.present path = false) :
    (∃ place, t.locate path = .vacant place ∧ (create access path).run t =
      (⟨0, "Created " ++ path ++ "\n"⟩, t.adding place Config.defaultDocument.toUTF8)) ∨
    ∃ failure : Failure, (create access path).run t =
      (⟨1, "error: failed to write file " ++ path ++ ": " ++ failure.message ++ "\n"⟩, t) := by
  rw [create, StateT.run_bind, present_run, pure_bind, h]
  simp only [Bool.false_eq_true, if_false]
  rw [StateT.run_bind, write_run]
  obtain ⟨place, hPlace, hWrite⟩ | ⟨failure, hWrite⟩ :=
    write_of_absent h Config.defaultDocument.toUTF8
  · exact .inl ⟨place, hPlace, by rw [hWrite]; rfl⟩
  · exact .inr ⟨failure, by rw [hWrite]; rfl⟩

theorem run_of_invocation {arguments : List String} {i : Invocation}
    (h : readArguments arguments = .ok i) : run access arguments = i.run access := by
  rw [run, h]

theorem run_of_shows {arguments : List String} {i : Invocation}
    (h : readArguments arguments = .ok i) (hShows : i.command ≠ .create) :
    ∃ display specs, ∀ t, (run access arguments).run t =
      (shown display specs (loaded t i.path), t) := by
  rw [run_of_invocation h]
  obtain ⟨command, config⟩ := i
  cases command with
  | types specs => exact ⟨TypeTable.text, specs, fun t => showUnder_run _ specs t _⟩
  | spellings specs => exact ⟨TypeTable.encode, specs, fun t => showUnder_run _ specs t _⟩
  | create => exact absurd rfl hShows

theorem run_of_creates {arguments : List String} {i : Invocation}
    (h : readArguments arguments = .ok i) (hCreates : i.command = .create) :
    run access arguments = create access i.path := by
  rw [run_of_invocation h, Invocation.run, hCreates]
  rfl

/-- What a run does to the files: nothing, or the configuration is created in a vacant place. -/
theorem leaves_cases (t : FileTree) (arguments : List String) :
    leaves t arguments = t ∨
    ∃ i place, readArguments arguments = .ok i ∧ i.command = .create ∧
      t.locate i.path = .vacant place ∧
      leaves t arguments = t.adding place Config.defaultDocument.toUTF8 := by
  cases hRead : readArguments arguments with
  | error stop =>
    refine .inl ?_
    rw [leaves, run, hRead]
    rfl
  | ok i =>
    by_cases hCreates : i.command = .create
    · rw [leaves, run_of_creates hRead hCreates]
      cases hPresent : t.present i.path with
      | true => exact .inl (by rw [create_of_present hPresent])
      | false =>
        obtain ⟨place, hPlace, hCreate⟩ | ⟨failure, hCreate⟩ := create_of_absent hPresent
        · exact .inr ⟨i, place, rfl, hCreates, hPlace, by rw [hCreate]⟩
        · exact .inl (by rw [hCreate])
    · obtain ⟨display, specs, hRun⟩ := run_of_shows hRead hCreates
      exact .inl (by rw [leaves, hRun])

theorem extends_leaves (t : FileTree) (arguments : List String) :
    Extends t (leaves t arguments) := by
  obtain hSame | ⟨i, place, -, -, -, hCreated⟩ := leaves_cases t arguments
  · rw [hSame]
    exact .refl t
  · rw [hCreated]
    exact .adding t place _

theorem extends_leavesAll (t : FileTree) (runs : List (List String)) :
    Extends t (leavesAll t runs) := by
  induction runs generalizing t with
  | nil => exact .refl t
  | cons arguments runs ih => exact (extends_leaves t arguments).trans (ih (leaves t arguments))

theorem reports_of_created {t' : FileTree} {arguments : List String} {i : Invocation}
    (hRead : readArguments arguments = .ok i) (hShows : i.command ≠ .create)
    (hAbsent : t.present i.path = false)
    (hFile : t'.locate i.path = .file place Config.defaultDocument.toUTF8) :
    reports t' arguments = reports t arguments := by
  obtain ⟨display, specs, hRun⟩ := run_of_shows hRead hShows
  rw [reports, reports, hRun, hRun, loaded_of_absent hAbsent, loaded_of_file hFile,
    Config.ofBytes_defaultDocument]

theorem locate_of_created {arguments : List String} {i : Invocation}
    (hRead : readArguments arguments = .ok i) (hCreates : i.command = .create)
    (hAbsent : t.present i.path = false) (hCode : (reports t arguments).code = 0) :
    ∃ place, (leaves t arguments).locate i.path =
      .file place Config.defaultDocument.toUTF8 := by
  have hRun := run_of_creates hRead hCreates
  obtain ⟨place, hPlace, hCreate⟩ | ⟨failure, hCreate⟩ := create_of_absent hAbsent
  · exact ⟨place, by rw [leaves, hRun, hCreate]; exact locate_adding hPlace⟩
  · rw [reports, hRun, hCreate] at hCode
    cases hCode

/-- Files that are there stay as they are. Showing types leaves the tree alone; creating a
configuration adds at most the default one, where the path leads and nothing was, and doing so
again changes nothing. After it was added, whatever is run in between, types are shown as without
it. -/
theorem run_harmless (t : FileTree) (arguments : List String) :
    Extends t (leaves t arguments) ∧ t.files <+: (leaves t arguments).files ∧
    (∀ path content, t.read path = .ok content → (leaves t arguments).read path = .ok content) ∧
    (leaves t arguments = t ∨
      ∃ i place, readArguments arguments = .ok i ∧ i.command = .create ∧
        t.locate i.path = .vacant place ∧
        leaves t arguments = t.adding place Config.defaultDocument.toUTF8) ∧
    leaves (leaves t arguments) arguments = leaves t arguments ∧
    ∀ i, readArguments arguments = .ok i → i.command = .create → t.present i.path = false →
      (reports t arguments).code = 0 →
      ∀ runs later i', readArguments later = .ok i' → i'.command ≠ .create → i'.path = i.path →
        reports (leavesAll (leaves t arguments) runs) later = reports t later := by
  have hExtends := extends_leaves t arguments
  have hCases := leaves_cases t arguments
  refine ⟨hExtends, hExtends.files_isPrefix, fun _ _ => hExtends.read_eq_ok, hCases, ?_, ?_⟩
  · obtain hSame | ⟨i, place, hRead, hCreates, hPlace, hCreated⟩ := hCases
    · rw [hSame, hSame]
    · rw [hCreated, leaves, run_of_creates hRead hCreates,
        create_of_present (present_adding hPlace)]
  · intro i hRead hCreates hAbsent hCode runs later i' hLater hShows hPath
    obtain ⟨place, hFile⟩ := locate_of_created hRead hCreates hAbsent hCode
    rw [← hPath] at hAbsent hFile
    exact reports_of_created hLater hShows hAbsent
      ((extends_leavesAll _ runs).locate_eq_file hFile)

def twoFolders : FileTree where
  home := ["a"]
  folders := [["a"], ["tmp"]]
  readOnly := [[]]
  contents := [(["a", "b"], "kept".toUTF8)]

/-- A configuration is created in the working directory and by a path from the root, and then
again. -/
theorem run_harmless_init :
    (twoFolders.present "c" = false ∧ (reports twoFolders ["init", "-c", "c"]).code = 0 ∧
      reports (leavesAll (leaves twoFolders ["init", "-c", "c"]) [["init", "-c", "c"]])
        ["spec", "-c", "c", "(v&B)"] = ⟨0, "(&b)\n"⟩) ∧
    (twoFolders.present "/tmp/c" = false ∧
      (reports twoFolders ["init", "-c", "/tmp/c"]).code = 0 ∧
      (leaves twoFolders ["init", "-c", "/tmp/c"]).read "/a/../tmp/c" =
        .ok Config.defaultDocument.toUTF8 ∧
      (leaves twoFolders ["init", "-c", "/tmp/c"]).read "/a/b" = .ok "kept".toUTF8 ∧
      reports (leavesAll (leaves twoFolders ["init", "-c", "/tmp/c"]) [["init", "-c", "/tmp/c"]])
        ["spec", "-c", "/tmp/c", "(v&B)"] = ⟨0, "(&b)\n"⟩) := by
  obtain ⟨-, -, -, -, -, hRelative⟩ := run_harmless twoFolders ["init", "-c", "c"]
  obtain ⟨-, -, hKept, -, -, hAbsolute⟩ := run_harmless twoFolders ["init", "-c", "/tmp/c"]
  have hHere : twoFolders.present "c" = false ∧
      (reports twoFolders ["init", "-c", "c"]).code = 0 ∧
      reports twoFolders ["spec", "-c", "c", "(v&B)"] = ⟨0, "(&b)\n"⟩ := by
    decide +kernel
  have hThere : twoFolders.present "/tmp/c" = false ∧
      (reports twoFolders ["init", "-c", "/tmp/c"]).code = 0 ∧
      reports twoFolders ["spec", "-c", "/tmp/c", "(v&B)"] = ⟨0, "(&b)\n"⟩ := by
    decide +kernel
  refine ⟨⟨hHere.1, hHere.2.1, ?_⟩, hThere.1, hThere.2.1, ?_, hKept "/a/b" _ ?_, ?_⟩
  · rw [← hHere.2.2]
    exact hRelative ⟨.create, some "c"⟩ rfl rfl hHere.1 hHere.2.1 _ _
      ⟨.spellings ["(v&B)"], some "c"⟩ rfl nofun rfl
  · rfl
  · rfl
  · rw [← hThere.2.2]
    exact hAbsolute ⟨.create, some "/tmp/c"⟩ rfl rfl hThere.1 hThere.2.1 _ _
      ⟨.spellings ["(v&B)"], some "/tmp/c"⟩ rfl nofun rfl

end CommandLine

end CompactType
