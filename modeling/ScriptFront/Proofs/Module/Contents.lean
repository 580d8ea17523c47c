import ScriptFront.Proofs.Module.Digest

/-!
# What the message of a digest tells about the files

The message has the contents of the files one behind the other, with no mark between them. So bytes can
move over the border between two files and leave the message as it was. Whoever knows how long all files
are but one knows the contents from the message (`contents_of_message`).
-/

namespace ScriptFront

/-- Pieces that make the same whole are the same, if all of them but one are known to be as long. -/
theorem eq_of_flatMap_eq {α β : Type} {f g : α → List β} {q : α} {ps : List α} (hps : ps.Nodup)
    (heq : ps.flatMap f = ps.flatMap g) (hlength : ∀ p ∈ ps, p ≠ q → (f p).length = (g p).length) :
    ∀ p ∈ ps, f p = g p := by
  induction ps with
  | nil => exact fun _ h => absurd h List.not_mem_nil
  | cons p rest ih =>
    obtain ⟨hp, hrest⟩ := List.nodup_cons.1 hps
    obtain ⟨hhead, htail⟩ := List.forall_mem_cons.1 hlength
    rw [List.flatMap_cons, List.flatMap_cons] at heq
    have hparts : f p = g p ∧ rest.flatMap f = rest.flatMap g := by
      by_cases hq : p = q
      · -- The length of this piece is not known, but that of all that is behind it.
        refine List.append_inj' heq ?_
        rw [List.length_flatMap, List.length_flatMap]
        refine congrArg List.sum (List.map_congr_left fun r hr => htail r hr ?_)
        rintro rfl
        exact hp (hq ▸ hr)
      · exact List.append_inj heq (hhead hq)
    exact List.forall_mem_cons.2 ⟨hparts.1, ih hrest hparts.2 htail⟩

/-! ## The bytes of a content -/

theorem toList_loop (content : ByteArray) (i : Nat) (bytes : List UInt8) :
    ByteArray.toList.loop content i bytes = bytes.reverse ++ content.data.toList.drop i := by
  fun_induction ByteArray.toList.loop content i bytes with
  | case1 i bytes h ih =>
    have hlt : i < content.data.toList.length := h
    have hget : content.get! i = content.data.toList[i] := by
      show content.data[i]! = _
      rw [getElem!_pos content.data i h]
      rfl
    rw [ih, List.drop_eq_getElem_cons hlt, hget]
    simp
  | case2 i bytes h =>
    have hle : content.data.toList.length ≤ i := Nat.le_of_not_lt h
    rw [List.drop_eq_nil_of_le hle, List.append_nil]

theorem toList_eq (content : ByteArray) : content.toList = content.data.toList :=
  toList_loop content 0 []

namespace MemoryFiles

variable {m m' : MemoryFiles} {p : String}

theorem find?_eq_of_bytes (h : m.exists? p = true) (h' : m'.exists? p = true)
    (hbytes : m.bytes p = m'.bytes p) : m.find? p = m'.find? p := by
  obtain ⟨content, hcontent⟩ := Option.isSome_iff_exists.1 h
  obtain ⟨content', hcontent'⟩ := Option.isSome_iff_exists.1 h'
  unfold bytes at hbytes
  rw [hcontent, hcontent'] at hbytes ⊢
  have hdata : content.data.toList = content'.data.toList := by
    rw [← toList_eq, ← toList_eq]
    exact hbytes
  exact congrArg some (ByteArray.ext (Array.toList_inj.1 hdata))

theorem bytes_eq_of_find? (h : m.find? p = m'.find? p) : m.bytes p = m'.bytes p := by
  unfold bytes
  rw [h]

end MemoryFiles

/-! ## Two modules with one message -/

namespace Module

theorem message_ok {m : MemoryFiles} {path : String} {bytes : List UInt8}
    (h : message m path = .ok bytes) :
    ∃ module, (m.parse path ⟨false⟩).1 = .ok module ∧ module.paths.flatMap m.bytes = bytes :=
  exists_map_eq_ok h

/-- **The contents in a digest.** When two modules of the same files have one message, their files have
the same contents if and only if all of them but one at most are as long in one as in the other. -/
theorem contents_of_message (m m' : MemoryFiles) (path path' : String) (bytes : List UInt8)
    (hcovers : ∀ p, Covers m path ⟨false⟩ p ↔ Covers m' path' ⟨false⟩ p)
    (h : message m path = .ok bytes) (h' : message m' path' = .ok bytes) :
    (∀ p, Covers m path ⟨false⟩ p → m.find? p = m'.find? p) ↔
      ∃ q, ∀ p, Covers m path ⟨false⟩ p → p ≠ q → (m.bytes p).length = (m'.bytes p).length := by
  obtain ⟨module, hparse, hbytes⟩ := message_ok h
  obtain ⟨module', hparse', hbytes'⟩ := message_ok h'
  have hpaths : module'.paths = module.paths := by
    refine eq_of_sorted (sorted_paths _) (sorted_paths _) fun p => ?_
    rw [mem_paths_iff_covers hparse, mem_paths_iff_covers hparse', hcovers]
  constructor
  · exact fun heq => ⟨"", fun p hp _ => congrArg List.length (MemoryFiles.bytes_eq_of_find? (heq p hp))⟩
  · rintro ⟨q, hlength⟩ p hp
    have hcontents : ∀ p ∈ module.paths, m.bytes p = m'.bytes p := by
      refine eq_of_flatMap_eq (module.sorted_paths.imp ne_of_lt) ?_ fun p hp =>
        hlength p ((mem_paths_iff_covers hparse).1 hp)
      rw [hbytes, ← hpaths, hbytes']
    exact MemoryFiles.find?_eq_of_bytes (exists_of_covers hp) (exists_of_covers ((hcovers p).1 hp))
      (hcontents p ((mem_paths_iff_covers hparse).2 hp))

/-! ## Bytes that move over a border -/

/-- An entry file and a file that it may import. -/
def pair (entry imported : String) : MemoryFiles :=
  ((MemoryFiles.ofCwd "/").add "a.ts" entry.toUTF8).add "b.ts" imported.toUTF8

theorem covers_pair {entry imported : String}
    (h : ((pair entry imported).parse "a.ts" ⟨false⟩).1.map paths = .ok ["/a.ts", "/b.ts"])
    (p : String) : Covers (pair entry imported) "a.ts" ⟨false⟩ p ↔ p = "/a.ts" ∨ p = "/b.ts" := by
  obtain ⟨module, hparse, hpaths⟩ := exists_map_eq_ok h
  rw [← mem_paths_iff_covers hparse, hpaths, List.mem_pair]

/-- The line feed at the end of the entry file. -/
theorem covers_feedBefore (p : String) :
    Covers (pair "import \"./b\"\n" "") "a.ts" ⟨false⟩ p ↔ p = "/a.ts" ∨ p = "/b.ts" :=
  covers_pair (by decide +kernel) p

/-- The line feed at the start of the imported file. -/
theorem covers_feedBehind (p : String) :
    Covers (pair "import \"./b\"" "\n") "a.ts" ⟨false⟩ p ↔ p = "/a.ts" ∨ p = "/b.ts" :=
  covers_pair (by decide +kernel) p

theorem contents_of_message_feed :
    ¬ ∃ q, ∀ p, Covers (pair "import \"./b\"\n" "") "a.ts" ⟨false⟩ p → p ≠ q →
      ((pair "import \"./b\"\n" "").bytes p).length = ((pair "import \"./b\"" "\n").bytes p).length := by
  have hsame := contents_of_message (pair "import \"./b\"\n" "") (pair "import \"./b\"" "\n") "a.ts"
    "a.ts" "import \"./b\"\n".toUTF8.toList
    (fun p => (covers_feedBefore p).trans (covers_feedBehind p).symm) (by decide +kernel)
    (by decide +kernel)
  intro hlength
  have hfind := hsame.2 hlength "/a.ts" ((covers_feedBefore _).2 (.inl rfl))
  revert hfind
  decide +kernel

/-- The imports of a module, file by file. -/
def importGraph (module : Module) : List (String × List Import) :=
  (module.entry.path, module.entry.imports) :: module.imported.map fun f => (f.2.path, f.2.imports)

/-- Two modules of the same files with the same imports and the same message, but other contents. -/
theorem message_moved_feed :
    let m := pair "import \"./b\"\n" ""
    let m' := pair "import \"./b\"" "\n"
    (∀ p, Covers m "a.ts" ⟨false⟩ p ↔ Covers m' "a.ts" ⟨false⟩ p) ∧
      (m.parse "a.ts" ⟨false⟩).1.map importGraph = (m'.parse "a.ts" ⟨false⟩).1.map importGraph ∧
      (∃ bytes, message m "a.ts" = .ok bytes ∧ message m' "a.ts" = .ok bytes) ∧
      Covers m "a.ts" ⟨false⟩ "/a.ts" ∧ m.find? "/a.ts" ≠ m'.find? "/a.ts" :=
  ⟨fun p => (covers_feedBefore p).trans (covers_feedBehind p).symm, by decide +kernel,
    ⟨"import \"./b\"\n".toUTF8.toList, by decide +kernel, by decide +kernel⟩,
    (covers_feedBefore _).2 (.inl rfl), by decide +kernel⟩

end Module

end ScriptFront
