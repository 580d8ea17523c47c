import ScriptFront.Proofs.Module.Entry
import ScriptFront.Proofs.Text.Template

/-!
# Which import a load fails for

A load fails for one import of one of its files: the import means nothing, or the file that it means is
not to be read. The error stands at that import and names its path, wherever the file that holds it is in
the import graph (`importFailure`).
-/

namespace ScriptFront.Module

variable (m : MemoryFiles) (project : Project) (entry : File)

/-- Whether `file` is the entry file or one that it imports, as it parses. -/
def Loads (file : File) : Prop :=
  file = entry ∨ ∃ p, Imported m project entry p ∧ Parses m project p file

/-- How an import of a file fails, with the error that comes of it. -/
inductive ImportFails (file : File) (i : Import) : Error → Prop
  | notFound (htarget : target? m project (Path.directory file.path) i.path = none) :
      ImportFails file i ⟨.importNotFound i.path, i.position⟩
  | broken {source : String} {e : Error}
      (htarget : target? m project (Path.directory file.path) i.path = some (.source source))
      (herror : m.answer (parseFile project source) = .error e) :
      ImportFails file i ⟨.importFailed i.path e.cause e.position, i.position⟩

variable {m project entry}

theorem importFails_of_resolveImports {file : File} {e : Error}
    (h : m.answer (resolveImports project file) = .error e) :
    ∃ i ∈ file.imports, ImportFails m project file i e := by
  have heach := answer_resolveEach m project (Path.directory file.path) file.imports
  unfold resolveImports at h
  rw [m.answer_bind, heach] at h
  cases hfind : file.imports.find? fun i =>
      (target? m project (Path.directory file.path) i.path).isNone with
  | none =>
    rw [hfind] at h
    cases h
  | some i =>
    rw [hfind] at h
    cases h
    obtain ⟨hnone, -⟩ := List.find?_eq_some_iff_append.1 hfind
    exact ⟨i, List.mem_of_find?_eq_some hfind, .notFound (Option.isNone_iff_eq_none.1 hnone)⟩

/-- The file of a pending import cannot be fetched because the import fails, or one that is in the
file. -/
theorem importFails_of_fetch {file : File} {p : Pending} {e : Error}
    (hp : p ∈ pendingOf m project file) (h : fetch m project p = .error e) :
    (∃ i ∈ file.imports, ImportFails m project file i e) ∨
      ∃ parsed, Parses m project p.source parsed ∧
        ∃ i ∈ parsed.imports, ImportFails m project parsed i e := by
  unfold fetch at h
  rw [m.answer_bind] at h
  cases hparse : m.answer (parseImport project p) with
  | error e' =>
    obtain ⟨i, hi, htarget, hdeclared⟩ := (mem_pendingOf m project).1 hp
    rw [hparse] at h
    cases h
    unfold parseImport at hparse
    rw [m.answer_adapt] at hparse
    cases herror : m.answer (parseFile project p.source) with
    | ok parsed =>
      rw [herror] at hparse
      cases hparse
    | error inner =>
      rw [herror, hdeclared] at hparse
      cases hparse
      exact .inl ⟨i, hi, .broken htarget herror⟩
  | ok parsed =>
    rw [hparse] at h
    exact .inr ⟨parsed, answer_parseImport_ok.1 hparse, importFails_of_resolveImports h⟩

/-- A run that fails does so for an import of a file that it loads. The induction carries that every
pending import stands in such a file. -/
theorem LoadRun.importFails {l : Loaded} {pending met : List Pending} {reads : List String}
    {r : Except Error Loaded} (hrun : LoadRun m project l pending met reads r) {e : Error}
    (hr : r = .error e)
    (hpending : ∀ p ∈ pending, ∃ file, Loads m project entry file ∧ p ∈ pendingOf m project file) :
    ∃ file, Loads m project entry file ∧ ∃ i ∈ file.imports, ImportFails m project file i e := by
  have himported : ∀ {file p parsed}, Loads m project entry file → p ∈ pendingOf m project file →
      Parses m project p.source parsed → Loads m project entry parsed := by
    rintro file p parsed (rfl | ⟨importer, himporter, hparses⟩) hp hparsed
    · exact .inr ⟨p.source, pendingOf_entry_imported hp, hparsed⟩
    · exact .inr ⟨p.source, pendingOf_imported himporter hparses hp, hparsed⟩
  induction hrun with
  | done => cases hr
  | covered _ _ ih => exact ih hr fun p hp => hpending p (List.mem_cons_of_mem _ hp)
  | @loaded l p rest more met file reads r _ hfetch _ ih =>
    obtain ⟨parsed, hparses, -, heq⟩ := fetch_ok hfetch
    cases heq
    obtain ⟨importer, hloads, hp⟩ := hpending p List.mem_cons_self
    refine ih hr fun q hq => ?_
    rcases List.mem_append.1 hq with hq | hq
    · exact ⟨parsed, himported hloads hp hparses, hq⟩
    · exact hpending q (List.mem_cons_of_mem _ hq)
  | @failed l p rest e' _ hfetch =>
    cases hr
    obtain ⟨importer, hloads, hp⟩ := hpending p List.mem_cons_self
    obtain ⟨i, hi, hfails⟩ | ⟨parsed, hparses, i, hi, hfails⟩ := importFails_of_fetch hp hfetch
    · exact ⟨importer, hloads, i, hi, hfails⟩
    · exact ⟨parsed, himported hloads hp hparses, i, hi, hfails⟩

/-- A load fails for an import of one of its files. -/
theorem importFails_of_load {e : Error} (h : m.answer (load project m.loadLimit entry) = .error e) :
    ∃ file, Loads m project entry file ∧ ∃ i ∈ file.imports, ImportFails m project file i e := by
  cases hresolve : m.answer (resolveImports project entry) with
  | error e' =>
    unfold load at h
    rw [m.answer_bind, hresolve] at h
    cases h
    exact ⟨entry, .inl rfl, importFails_of_resolveImports hresolve⟩
  | ok r =>
    rw [answer_load m project m.loadLimit (answer_resolveImports_ok hresolve).1] at h
    cases hl : m.answer (loadPending project m.loadLimit .empty (pendingOf m project entry)) with
    | ok l =>
      rw [hl] at h
      cases h
    | error e' =>
      rw [hl] at h
      cases h
      exact (loadRun_entry m project entry).importFails hl fun p hp => ⟨entry, .inl rfl, hp⟩

/-- The message of an import that fails starts with its path, unless that holds the placeholder that is
filled after it. -/
theorem ImportFails.message {file : File} {i : Import} {e : Error} (h : ImportFails m project file i e)
    (hpath : ¬ Text.placeholder 1 <:+: i.path.toList) :
    ∃ rest, e.message = "Import error '" ++ i.path ++ rest := by
  cases h with
  | notFound => exact ⟨_, Cause.message_importNotFound i.path⟩
  | @broken source e htarget herror =>
    have hmessage := Cause.message_importFailed hpath e.cause e.position
    rw [String.append_assoc] at hmessage
    exact ⟨_, hmessage⟩

/-- **Import errors.** A parse that fails with an import error does so for an import of the entry file or
of a file that it imports: the import means nothing, or the file that it means is no text or does not
parse. The error stands where that import stands, and unless the path of the import holds the
placeholder of the argument behind it, the message starts with this path as written. -/
theorem importFailure (m : MemoryFiles) (path : String) (options : Options) (e : Error)
    (h : (m.parse path options).1 = .error e) (hkind : e.kind = .importResolution) :
    ∃ project entry file i, project.options = options ∧ StartsAt m path project entry ∧
      Loads m project entry file ∧ i ∈ file.imports ∧ ImportFails m project file i e ∧
      e.position = i.position ∧
      (¬ Text.placeholder 1 <:+: i.path.toList →
        ∃ rest, e.message = "Import error '" ++ i.path ++ rest) := by
  obtain ⟨project, entry, hoptions, hstarts⟩ | ⟨e', herror, hother⟩ := parse_cases m path options
  · rw [parse_eq_load hoptions hstarts] at h
    obtain ⟨file, hloads, i, hi, hfails⟩ := importFails_of_load h
    refine ⟨project, entry, file, i, hoptions, hstarts, hloads, hi, hfails, ?_, hfails.message⟩
    cases hfails <;> rfl
  · cases herror.symm.trans h
    exact absurd hkind hother

/-- An entry file, a file that it imports, and behind two empty lines the import of a file that is not
there. -/
def missingBehind : MemoryFiles :=
  ((MemoryFiles.ofCwd "/").add "a.ts" "import \"./b\"\n".toUTF8).add "b.ts"
    "\n\nimport \"./missing\"\n".toUTF8

theorem parse_missingBehind :
    (missingBehind.parse "a.ts" ⟨false⟩).1 = .error ⟨.importNotFound "./missing", ⟨3, 1⟩⟩ := by
  have hparse : (missingBehind.parse "a.ts" ⟨false⟩).1.map Module.basePath =
      .error ⟨.importNotFound "./missing", ⟨3, 1⟩⟩ := by decide +kernel
  cases hresult : (missingBehind.parse "a.ts" ⟨false⟩).1 with
  | error e =>
    rw [hresult] at hparse
    cases hparse
    rfl
  | ok module =>
    rw [hresult] at hparse
    cases hparse

theorem importFailure_behind :
    ∃ project entry file i, StartsAt missingBehind "a.ts" project entry ∧
      Loads missingBehind project entry file ∧ i ∈ file.imports ∧ i.position = ⟨3, 1⟩ ∧
      ∃ rest, "Import error './missing': file not found" = "Import error '" ++ i.path ++ rest := by
  have hmessage : Error.message ⟨.importNotFound "./missing", ⟨3, 1⟩⟩ =
      "Import error './missing': file not found" := by decide +kernel
  obtain ⟨project, entry, file, i, -, hstarts, hloads, hi, hfails, hposition, hpath⟩ :=
    importFailure missingBehind "a.ts" ⟨false⟩ ⟨.importNotFound "./missing", ⟨3, 1⟩⟩
      parse_missingBehind rfl
  have hwritten : i.path = "./missing" := by
    generalize herror : (⟨.importNotFound "./missing", ⟨3, 1⟩⟩ : Error) = e at hfails
    cases hfails with
    | notFound => exact (Cause.importNotFound.inj (congrArg Error.cause herror)).symm
    | broken => cases congrArg Error.cause herror
  refine ⟨project, entry, file, i, hstarts, hloads, hi, hposition.symm, ?_⟩
  rw [← hmessage]
  refine hpath ?_
  rw [hwritten]
  decide

/-- The error does not stand at the import of the entry file, and does not name its path. -/
theorem importFailure_notInEntry :
    ∃ e project entry, (missingBehind.parse "a.ts" ⟨false⟩).1 = .error e ∧
      e.kind = .importResolution ∧ project.options = ⟨false⟩ ∧
      StartsAt missingBehind "a.ts" project entry ∧
      ∀ i ∈ entry.imports, e.position ≠ i.position ∧
        ¬ ("Import error '" ++ i.path).toList <+: e.message.toList := by
  obtain ⟨entry, hentry, himports⟩ := exists_map_eq_ok (show
    (File.ofSource "import \"./b\"\n" "/a.ts" ⟨false⟩).map (·.imports) =
      .ok [⟨⟨1, 1⟩, "./b", "", ""⟩] by decide +kernel)
  have hparses : Parses missingBehind ⟨"/", .ofBasePath "/", ⟨false⟩⟩ "/a.ts" entry :=
    ⟨"import \"./b\"\n", by decide +kernel, hentry⟩
  have hpath := parses_path hparses
  refine ⟨_, ⟨"/", .ofBasePath "/", ⟨false⟩⟩, entry, parse_missingBehind, rfl, rfl,
    ⟨rfl, ?_, ?_, ?_⟩, ?_⟩
  · rw [hpath]
    decide +kernel
  · rw [hpath]
    decide +kernel
  · rw [hpath]
    exact hparses
  · rw [himports]
    decide +kernel

end ScriptFront.Module
