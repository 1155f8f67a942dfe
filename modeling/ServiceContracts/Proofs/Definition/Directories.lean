import ServiceContracts.Proofs.Definition.Findings
import ServiceContracts.Proofs.Definition.Grammar
import ServiceContracts.Proofs.Text.Lossy
import Mathlib.Data.List.Forall2
import Mathlib.Data.List.Nodup
/-!
# Adding a directory

A directory is a set of entries, listed in some order. `DirectoryEnds`
says what adding it comes to without mention of that order: only entries
under names of definition files count; one that refuses the directory, or
too many files, end the call before anything is read; and else the files
are read one after the other, up to the first that gives no document.

They are read in the order of the texts of their names. For names that
are UTF-8 that is the order of their bytes. Other names can share a text,
and files under such names are read as they are listed. So the order of
the listing decides nothing but which of several refusals is given, where
no two files share a text (`Loader.addDirectory_exact`).
-/


namespace ServiceContracts

/-! ## Names -/

namespace FileName

/-- **The name is UTF-8.** -/
def IsText (name : FileName) : Prop := ∃ s, name = ofText s

/-- **The name of a definition file**: a stem and the suffix, in letters of
either case. -/
def IsDefinition (name : FileName) : Prop :=
  ∃ (stem : List UInt8) (suffix : String), name.bytes = stem ++ Text.bytes suffix ∧
    suffix.toList.map Char.toLower = Definition.fileSuffix

theorem text_ofText (s : String) : (ofText s).text = s := Text.lossy_bytes s

theorem IsText.bytes_text {name : FileName} (h : name.IsText) :
    Text.bytes name.text = name.bytes := by
  obtain ⟨s, rfl⟩ := h
  rw [text_ofText]
  rfl

/-- Names that are UTF-8 have texts of their own. -/
theorem IsText.eq_of_text_eq {name other : FileName} (h : name.IsText) (h' : other.IsText)
    (htext : name.text = other.text) : name = other := by
  obtain ⟨s, rfl⟩ := h
  obtain ⟨t, rfl⟩ := h'
  rw [text_ofText, text_ofText] at htext
  rw [htext]

theorem ascii_of_toLower {c : Char} (h : c.toLower ∈ Definition.fileSuffix) : c.toNat < 0x80 := by
  have hall : (Definition.fileSuffix.all fun d => decide (d.toNat < 0x80)) = true := by
    decide
  have hlow := of_decide_eq_true (List.all_eq_true.mp hall _ h)
  unfold Char.toLower at hlow
  split at hlow
  · next hupper => exact Nat.lt_of_le_of_lt (UInt32.le_iff_toNat_le.mp hupper.2) (by decide)
  · exact hlow

/-- The text of a name ends as that of a definition file where the name
does, whatever is replaced before. -/
theorem isDefinitionName_text_iff {name : FileName} :
    Definition.isDefinitionName name.text = true ↔ name.IsDefinition := by
  have htext : name.text.toList = Text.lossyFrom none name.bytes := String.toList_ofList
  have hascii : ∀ {suffix : List Char}, suffix.map Char.toLower = Definition.fileSuffix →
      ∀ c ∈ suffix, c.toNat < 0x80 :=
    fun hsuffix c hc => ascii_of_toLower (hsuffix ▸ List.mem_map_of_mem hc)
  rw [Definition.isDefinitionName, List.isSuffixOf_iff_suffix, htext]
  constructor
  · rintro ⟨stem, h⟩
    obtain ⟨before, suffix, hname, -, hsuffix⟩ := List.append_eq_map_iff.mp h
    obtain ⟨rest, hbytes⟩ := (Text.suffix_lossyFrom_iff (hascii hsuffix)).mp ⟨before, hname.symm⟩
    refine ⟨rest, String.ofList suffix, ?_, by rwa [String.toList_ofList]⟩
    rw [Text.bytes_ofList_of_ascii (hascii hsuffix), hbytes]
  · rintro ⟨stem, suffix, hname, hsuffix⟩
    have hbytes : stem ++ suffix.toList.map Text.asciiByte = name.bytes := by
      rw [hname, ← Text.bytes_ofList_of_ascii (hascii hsuffix), String.ofList_toList]
    obtain ⟨before, hbefore⟩ :=
      (Text.suffix_lossyFrom_iff (hascii hsuffix)).mpr ⟨stem, hbytes⟩
    rw [← hbefore, List.map_append, hsuffix]
    exact List.suffix_append _ _

end FileName

/-- The path of an entry is as long as that of the directory and the name. -/
theorem FileTree.le_entryPathSize (directory : String) (name : FileName) :
    directory.utf8ByteSize + name.bytes.length ≤ entryPathSize directory name := by
  rw [entryPathSize, entryPath]
  split
  · rw [String.append_empty]
  · rw [String.append_empty, String.utf8ByteSize_append]
    omega

namespace Definition

/-! ## One file -/

/-- **What comes of a file's content** under a limit of bytes: its document,
or the error that it ends the call with. -/
inductive FileGives (parser : DocumentParser) (limits : Limits) (path : String)
    (content : ByteArray) : Except LoadError Source → Prop
  | tooLarge (hsize : limits.bytes < content.size) :
      FileGives parser limits path content (.error (.notRead (.tooLarge content.size path)))
  | notUtf8 (hsize : content.size ≤ limits.bytes) (htext : String.fromUTF8? content = none) :
      FileGives parser limits path content (.error (.notRead (.notRead path .notUtf8)))
  | invalid {text : String} {error : LoadError} (hsize : content.size ≤ limits.bytes)
      (htext : String.fromUTF8? content = some text) (h : parser.parse path text = .error error) :
      FileGives parser limits path content (.error error)
  | document {text : String} {d : Document} (hsize : content.size ≤ limits.bytes)
      (htext : String.fromUTF8? content = some text) (h : parser.parse path text = .ok d) :
      FileGives parser limits path content (.ok ⟨path, d⟩)

/-- The loader with more documents. -/
def Loader.extended (l : Loader) (sources : List Source) : Loader :=
  { l with sources := l.sources ++ sources }

variable {l : Loader} {path directory : String}

@[simp] theorem Loader.extended_nil : l.extended [] = l := by
  rw [extended, List.append_nil]

@[simp] theorem Loader.extended_extended (sources more : List Source) :
    (l.extended sources).extended more = l.extended (sources ++ more) := by
  rw [extended, extended, extended, List.append_assoc]

/-- **Adding one file** does what its content gives. -/
theorem Loader.addNode_cases (l : Loader) (path : String) (content : ByteArray) :
    (∃ source, FileGives l.parser l.limits path content (.ok source) ∧
      l.addNode path (.file content) = (l.extended [source], .ok ())) ∨
    ∃ error, FileGives l.parser l.limits path content (.error error) ∧
      l.addNode path (.file content) = (l, .error error) := by
  by_cases hsize : l.limits.bytes < content.size
  · refine .inr ⟨_, .tooLarge hsize, ?_⟩
    rw [addNode, textWithin, if_pos hsize]
  have hle : content.size ≤ l.limits.bytes := Nat.not_lt.mp hsize
  cases htext : String.fromUTF8? content with
  | none =>
    refine .inr ⟨_, .notUtf8 hle htext, ?_⟩
    rw [addNode, textWithin, if_neg hsize, htext]
  | some text =>
    have hadd : l.addNode path (.file content) = l.push path (l.parser.parse path text) := by
      rw [addNode, textWithin, if_neg hsize, htext]
      rfl
    cases hparse : l.parser.parse path text with
    | error error => exact .inr ⟨_, .invalid hle htext hparse, by rw [hadd, hparse, push]⟩
    | ok d => exact .inl ⟨_, .document hle htext hparse, by rw [hadd, hparse, push, extended]⟩

/-! ## Files one after the other -/

/-- A file of a directory. -/
structure NamedFile where
  name : FileName
  content : ByteArray

/-- The entry that it is. -/
def NamedFile.entry (f : NamedFile) : FileName × FileNode := (f.name, .file f.content)

/-- Its path, as a text. -/
def NamedFile.pathIn (directory : String) (f : NamedFile) : String :=
  FileTree.entryPath directory f.name.text

theorem NamedFile.entry_injective : Function.Injective NamedFile.entry := by
  intro f g h
  obtain ⟨name, content⟩ := f
  obtain ⟨hname, hnode⟩ := Prod.mk.inj h
  obtain rfl : name = g.name := hname
  obtain rfl : content = g.content := FileNode.file.inj hnode
  rfl

/-- Each file gives a document. -/
def GiveDocuments (l : Loader) (directory : String) (files : List NamedFile)
    (sources : List Source) : Prop :=
  List.Forall₂
    (fun f source => FileGives l.parser l.limits (f.pathIn directory) f.content (.ok source))
    files sources

/-- **Files are added up to the first that gives no document**, and those
before it stay. -/
theorem Loader.addFiles_cases (l : Loader) (directory : String) (files : List NamedFile) :
    (∃ sources, GiveDocuments l directory files sources ∧
      l.addFiles directory (files.map NamedFile.entry) = (l.extended sources, .ok ())) ∨
    ∃ before f after sources error, files = before ++ f :: after ∧
      GiveDocuments l directory before sources ∧
      FileGives l.parser l.limits (f.pathIn directory) f.content (.error error) ∧
      l.addFiles directory (files.map NamedFile.entry) = (l.extended sources, .error error) := by
  induction files generalizing l with
  | nil =>
    refine .inl ⟨[], .nil, ?_⟩
    rw [List.map_nil, addFiles, extended_nil]
  | cons f rest ih =>
    obtain ⟨source, hgives, hadd⟩ | ⟨error, hgives, hadd⟩ :=
      l.addNode_cases (f.pathIn directory) f.content
    · have hnext : l.addFiles directory ((f :: rest).map NamedFile.entry) =
          (l.extended [source]).addFiles directory (rest.map NamedFile.entry) := by
        rw [List.map_cons, NamedFile.entry, addFiles, ← NamedFile.pathIn, hadd]
      rw [hnext]
      obtain ⟨sources, hsources, hrest⟩ |
          ⟨before, g, after, sources, error, rfl, hsources, hfault, hrest⟩ := ih (l.extended [source])
      · refine .inl ⟨source :: sources, .cons hgives hsources, ?_⟩
        rw [hrest, extended_extended, List.singleton_append]
      · refine .inr ⟨f :: before, g, after, source :: sources, error, rfl, .cons hgives hsources,
          hfault, ?_⟩
        rw [hrest, extended_extended, List.singleton_append]
    · refine .inr ⟨[], f, rest, [], error, rfl, .nil, hgives, ?_⟩
      rw [List.map_cons, NamedFile.entry, addFiles, ← NamedFile.pathIn, hadd, extended_nil]

/-! ## The files of a directory -/

/-- **The definition files of a directory in the order of their names**: all
of them once, and nothing else. The texts of the names do not descend, and
names that are UTF-8 have bytes that ascend. -/
structure InNameOrder (entries : List (FileName × FileNode)) (files : List NamedFile) : Prop where
  mem_iff : ∀ f, f ∈ files ↔ f.entry ∈ entries ∧ f.name.IsDefinition
  nodup : files.Nodup
  texts : files.Pairwise fun f g => Text.bytes f.name.text ≤ Text.bytes g.name.text
  ascending : files.Pairwise fun f g => f.name.IsText → g.name.IsText → f.name.bytes < g.name.bytes

/-- **No two definition files of a directory share a text.** -/
def DistinctTexts (entries : List (FileName × FileNode)) : Prop :=
  ∀ f g : NamedFile, f.entry ∈ entries → g.entry ∈ entries → f.name.IsDefinition →
    g.name.IsDefinition → f.name.text = g.name.text → f = g

/-- **What a directory is refused for**, by an entry under the name of a
definition file: a path that is too long, or being a link. -/
inductive Refuses (directory : String) (entries : List (FileName × FileNode)) : ReadFault → Prop
  | tooLong {name : FileName} {node : FileNode} (hmem : (name, node) ∈ entries)
      (hname : name.IsDefinition)
      (hsize : FileTree.pathLimit ≤ FileTree.entryPathSize directory name) :
      Refuses directory entries (.entry .nameTooLong)
  | link {name : FileName} {target : String} (hmem : (name, FileNode.link target) ∈ entries)
      (hname : name.IsDefinition)
      (hsize : FileTree.entryPathSize directory name < FileTree.pathLimit) :
      Refuses directory entries (.symlink name.text)

variable {entries others : List (FileName × FileNode)} {files more : List NamedFile}
  {fault : ReadFault}

/-- Names that are UTF-8 do not share one. -/
theorem DistinctTexts.of_isText (hnames : (Entries.keys entries).Nodup)
    (htexts : ∀ e ∈ entries, e.1.IsDefinition → e.1.IsText) : DistinctTexts entries := by
  intro f g hf hg hfname hgname htext
  have hname : f.name = g.name := (htexts _ hf hfname).eq_of_text_eq (htexts _ hg hgname) htext
  refine NamedFile.entry_injective (Prod.ext hname ?_)
  have hfound : Entries.get? entries f.name = some f.entry.2 := Entries.get?_eq_some_of_mem hnames hf
  rw [hname] at hfound
  exact Option.some.inj (hfound.symm.trans (Entries.get?_eq_some_of_mem hnames hg))

theorem mem_definitionFiles_iff {e : FileName × FileNode} :
    e ∈ definitionFiles entries ↔
      ∃ f : NamedFile, e = f.entry ∧ f.entry ∈ entries ∧ f.name.IsDefinition := by
  obtain ⟨name, node⟩ := e
  rw [definitionFiles, (List.mergeSort_perm _ _).mem_iff, List.mem_filter, Bool.and_eq_true,
    FileName.isDefinitionName_text_iff]
  constructor
  · rintro ⟨hmem, hname, hfile⟩
    cases node with
    | file content => exact ⟨⟨name, content⟩, rfl, hmem, hname⟩
    | _ => cases hfile
  · rintro ⟨⟨name', content⟩, heq, hmem, hname⟩
    obtain ⟨rfl, rfl⟩ := Prod.mk.inj heq
    exact ⟨hmem, hname, rfl⟩

/-- No name comes twice among them either. -/
theorem nodup_keys_definitionFiles (hnames : (Entries.keys entries).Nodup) :
    (Entries.keys (definitionFiles entries)).Nodup := by
  rw [Entries.keys, definitionFiles, ((List.mergeSort_perm _ _).map Prod.fst).nodup_iff]
  exact (List.filter_sublist.map Prod.fst).nodup hnames

/-- A list of entries that are files. -/
theorem exists_map_entry (h : ∀ e ∈ entries, ∃ f : NamedFile, e = f.entry) :
    ∃ files : List NamedFile, entries = files.map NamedFile.entry := by
  induction entries with
  | nil => exact ⟨[], rfl⟩
  | cons e rest ih =>
    obtain ⟨⟨f, rfl⟩, hrest⟩ := List.forall_mem_cons.mp h
    obtain ⟨files, rfl⟩ := ih hrest
    exact ⟨f :: files, rfl⟩

/-- **The files are read in name order.** -/
theorem exists_inNameOrder (hnames : (Entries.keys entries).Nodup) :
    ∃ files, InNameOrder entries files ∧ definitionFiles entries = files.map NamedFile.entry := by
  obtain ⟨files, hfiles⟩ : ∃ files : List NamedFile,
      definitionFiles entries = files.map NamedFile.entry := by
    refine exists_map_entry fun e he => ?_
    obtain ⟨f, rfl, -⟩ := mem_definitionFiles_iff.mp he
    exact ⟨f, rfl⟩
  have hdistinct : files.Pairwise fun f g => f.name ≠ g.name := by
    have hnodup := nodup_keys_definitionFiles hnames
    rw [hfiles, List.Nodup, Entries.keys, List.map_map, List.pairwise_map] at hnodup
    exact hnodup
  have htexts : files.Pairwise fun f g => f.name.text ≤ g.name.text := by
    have hpairwise := pairwise_definitionFiles entries
    rwa [hfiles, List.pairwise_map] at hpairwise
  refine ⟨files, ⟨fun f => ?_, ?_, ?_, ?_⟩, hfiles⟩
  · rw [← List.mem_map_of_injective NamedFile.entry_injective, ← hfiles, mem_definitionFiles_iff]
    constructor
    · rintro ⟨g, heq, hmem, hname⟩
      obtain rfl := NamedFile.entry_injective heq
      exact ⟨hmem, hname⟩
    · rintro ⟨hmem, hname⟩
      exact ⟨f, rfl, hmem, hname⟩
  · exact hdistinct.imp fun hne heq => hne (congrArg NamedFile.name heq)
  · exact htexts.imp Text.bytes_le_bytes_iff.mpr
  · refine (htexts.and hdistinct).imp fun {f g} h hf hg => ?_
    rw [← hf.bytes_text, ← hg.bytes_text, Text.bytes_lt_bytes_iff]
    -- no later name is equal, and none comes before
    exact String.not_le.mp fun hle =>
      h.2 (hf.eq_of_text_eq hg (String.le_antisymm h.1 hle))

/-! ## Other listings -/

section Listings

variable (hsame : ∀ e : FileName × FileNode, e.1.IsDefinition → (e ∈ entries ↔ e ∈ others))

include hsame

theorem InNameOrder.of_same (h : InNameOrder others files) : InNameOrder entries files where
  mem_iff f := (h.mem_iff f).trans (and_congr_left fun hname => (hsame f.entry hname).symm)
  nodup := h.nodup
  texts := h.texts
  ascending := h.ascending

theorem Refuses.of_same (h : Refuses directory others fault) : Refuses directory entries fault := by
  cases h with
  | tooLong hmem hname hsize => exact .tooLong ((hsame _ hname).mpr hmem) hname hsize
  | @link name target hmem hname hsize =>
    have hmem' := (hsame (name, .link target) hname).mpr hmem
    exact .link hmem' hname hsize

end Listings

/-- One order for one set of files with texts of their own. -/
theorem InNameOrder.unique (hdistinct : DistinctTexts entries) (hfiles : InNameOrder entries files)
    (hmore : InNameOrder entries more) : files = more := by
  have hperm : files.Perm more :=
    (List.perm_ext_iff_of_nodup hfiles.nodup hmore.nodup).mpr fun f =>
      (hfiles.mem_iff f).trans (hmore.mem_iff f).symm
  refine hperm.eq_of_pairwise (fun f g hf hg hle hle' => ?_) hfiles.texts hmore.texts
  obtain ⟨hfmem, hfname⟩ := (hfiles.mem_iff f).mp hf
  obtain ⟨hgmem, hgname⟩ := (hmore.mem_iff g).mp hg
  exact hdistinct f g hfmem hgmem hfname hgname (String.le_antisymm
    (Text.bytes_le_bytes_iff.mp hle) (Text.bytes_le_bytes_iff.mp hle'))

theorem refuses_of_refusal? (h : refusal? directory entries = some fault) :
    Refuses directory entries fault := by
  obtain ⟨⟨name, node⟩, hmem, hrefusal⟩ := List.exists_of_findSome?_eq_some h
  unfold refusalOf? at hrefusal
  split at hrefusal
  · next hname =>
    have hname := FileName.isDefinitionName_text_iff.mp hname
    split at hrefusal
    · next hsize =>
      obtain rfl := Option.some.inj hrefusal
      exact .tooLong hmem hname hsize
    · next hsize =>
      cases node with
      | link target =>
        obtain rfl := Option.some.inj hrefusal
        exact .link hmem hname (Nat.not_le.mp hsize)
      | _ => cases hrefusal
  · cases hrefusal

theorem refusal?_eq_none_iff :
    refusal? directory entries = none ↔ ∀ fault, ¬ Refuses directory entries fault := by
  constructor
  · intro h fault hrefuses
    have hnone := List.findSome?_eq_none_iff.mp h
    cases hrefuses with
    | tooLong hmem hname hsize =>
      have hentry := hnone _ hmem
      simp [refusalOf?, FileName.isDefinitionName_text_iff.mpr hname, hsize] at hentry
    | link hmem hname hsize =>
      have hentry := hnone _ hmem
      simp [refusalOf?, FileName.isDefinitionName_text_iff.mpr hname, Nat.not_le.mpr hsize]
        at hentry
  · intro h
    cases hrefusal : refusal? directory entries with
    | none => rfl
    | some fault => exact absurd (refuses_of_refusal? hrefusal) (h fault)

/-! ## The whole directory -/

/-- **What adding a directory comes to**, told from the set of its entries:
the loader after it, and the number of documents or the error. -/
inductive DirectoryEnds (l : Loader) (path : String) (entries : List (FileName × FileNode)) :
    Loader × Except LoadError Nat → Prop
  /-- An entry refuses it, and nothing is added. -/
  | refused {fault : ReadFault} (h : Refuses path entries fault) :
      DirectoryEnds l path entries (l, .error (.notRead fault))
  /-- Too many files are refused, and nothing is added. -/
  | tooMany {files : List NamedFile} (hnone : ∀ fault, ¬ Refuses path entries fault)
      (hfiles : InNameOrder entries files) (hlimit : l.limits.documents < files.length) :
      DirectoryEnds l path entries
        (l, .error (.notRead (.tooMany l.limits.documents files.length)))
  /-- The first file that gives no document ends it; those before are added. -/
  | stops {before after : List NamedFile} {f : NamedFile} {sources : List Source}
      {error : LoadError} (hnone : ∀ fault, ¬ Refuses path entries fault)
      (hfiles : InNameOrder entries (before ++ f :: after))
      (hlimit : (before ++ f :: after).length ≤ l.limits.documents)
      (hbefore : GiveDocuments l path before sources)
      (hfault : FileGives l.parser l.limits (f.pathIn path) f.content (.error error)) :
      DirectoryEnds l path entries (l.extended sources, .error error)
  /-- All files are added, and counted. -/
  | adds {files : List NamedFile} {sources : List Source}
      (hnone : ∀ fault, ¬ Refuses path entries fault) (hfiles : InNameOrder entries files)
      (hlimit : files.length ≤ l.limits.documents) (hdocuments : GiveDocuments l path files sources) :
      DirectoryEnds l path entries (l.extended sources, .ok files.length)

theorem DirectoryEnds.of_same {result : Loader × Except LoadError Nat}
    (hsame : ∀ e : FileName × FileNode, e.1.IsDefinition → (e ∈ entries ↔ e ∈ others))
    (h : DirectoryEnds l path others result) : DirectoryEnds l path entries result := by
  have hback : ∀ e : FileName × FileNode, e.1.IsDefinition → (e ∈ others ↔ e ∈ entries) :=
    fun e hname => (hsame e hname).symm
  cases h with
  | refused h => exact .refused (h.of_same hsame)
  | tooMany hnone hfiles hlimit =>
    exact .tooMany (fun fault h => hnone fault (h.of_same hback)) (hfiles.of_same hsame) hlimit
  | stops hnone hfiles hlimit hbefore hfault =>
    exact .stops (fun fault h => hnone fault (h.of_same hback)) (hfiles.of_same hsame) hlimit
      hbefore hfault
  | adds hnone hfiles hlimit hdocuments =>
    exact .adds (fun fault h => hnone fault (h.of_same hback)) (hfiles.of_same hsame) hlimit
      hdocuments

variable {tree : FileTree}

/-- The call looks for refusals first, then counts the files, and then reads
them. -/
theorem Loader.addDirectory_eq (hlist : tree.list path = .ok entries) :
    l.addDirectory tree path = match refusal? path entries with
      | some fault => (l, .error (.notRead fault))
      | none =>
        if l.limits.documents < (definitionFiles entries).length then
          (l, .error (.notRead (.tooMany l.limits.documents (definitionFiles entries).length)))
        else ((l.addFiles path (definitionFiles entries)).1,
          (l.addFiles path (definitionFiles entries)).2.map fun _ =>
            (definitionFiles entries).length) := by
  simp only [addDirectory, hlist, selectFiles_eq]
  cases refusal? path entries with
  | some fault => rfl
  | none =>
    by_cases hlimit : l.limits.documents < (definitionFiles entries).length
    · simp only [if_pos hlimit]
    · simp only [if_neg hlimit]

theorem Loader.addDirectory_ends (l : Loader) (hlist : tree.list path = .ok entries)
    (hnames : (Entries.keys entries).Nodup) :
    DirectoryEnds l path entries (l.addDirectory tree path) := by
  obtain ⟨files, hfiles, hdefinition⟩ := exists_inNameOrder hnames
  rw [addDirectory_eq hlist]
  cases hrefusal : refusal? path entries with
  | some fault => exact .refused (refuses_of_refusal? hrefusal)
  | none =>
    have hnone := refusal?_eq_none_iff.mp hrefusal
    rw [hdefinition, List.length_map]
    dsimp only
    split
    case isTrue hlimit => exact .tooMany hnone hfiles hlimit
    case isFalse hlimit =>
      have hle := Nat.not_lt.mp hlimit
      obtain ⟨sources, hdocuments, hadd⟩ |
          ⟨before, f, after, sources, error, rfl, hbefore, hfault, hadd⟩ :=
        l.addFiles_cases path files
      · rw [hadd]
        exact .adds hnone hfiles hle hdocuments
      · rw [hadd]
        exact .stops hnone hfiles hle hbefore hfault

/-- **Adding a directory** comes to what its set of entries says: all limits
come first, and then the files in the order of their names. Another
directory with the same entries under names of definition files, listed in
whatever order among whatever others, comes to what that set says as well;
and it gives the same loader and the same result where no two of the files
share a text, but that two refusals may be given for different entries. -/
theorem Loader.addDirectory_exact (l : Loader) (hlist : tree.list path = .ok entries)
    (hnames : (Entries.keys entries).Nodup) :
    DirectoryEnds l path entries (l.addDirectory tree path) ∧
    ∀ (other : FileTree) (others : List (FileName × FileNode)), other.list path = .ok others →
      (Entries.keys others).Nodup →
      (∀ e : FileName × FileNode, e.1.IsDefinition → (e ∈ entries ↔ e ∈ others)) →
      DirectoryEnds l path entries (l.addDirectory other path) ∧
      ((DistinctTexts entries → l.addDirectory other path = l.addDirectory tree path) ∨
        ∃ fault fault', Refuses path entries fault ∧ Refuses path entries fault' ∧
          l.addDirectory tree path = (l, .error (.notRead fault)) ∧
          l.addDirectory other path = (l, .error (.notRead fault'))) := by
  refine ⟨l.addDirectory_ends hlist hnames, fun other others hlist' hnames' hsame =>
    ⟨(l.addDirectory_ends hlist' hnames').of_same hsame, ?_⟩⟩
  rw [addDirectory_eq hlist, addDirectory_eq hlist']
  cases hrefusal : refusal? path entries with
  | none =>
    refine .inl fun hdistinct => ?_
    have hrefusal' : refusal? path others = none :=
      refusal?_eq_none_iff.mpr fun fault h =>
        refusal?_eq_none_iff.mp hrefusal fault (h.of_same hsame)
    obtain ⟨files, hfiles, hdefinition⟩ := exists_inNameOrder hnames
    obtain ⟨files', hfiles', hdefinition'⟩ := exists_inNameOrder hnames'
    obtain rfl := hfiles.unique hdistinct (hfiles'.of_same hsame)
    rw [hrefusal', hdefinition, hdefinition']
  | some fault =>
    have hrefuses := refuses_of_refusal? hrefusal
    cases hrefusal' : refusal? path others with
    | none =>
      exact absurd (hrefuses.of_same fun e hname => (hsame e hname).symm)
        (refusal?_eq_none_iff.mp hrefusal' fault)
    | some fault' =>
      exact .inr ⟨fault, fault', hrefuses, (refuses_of_refusal? hrefusal').of_same hsame, rfl, rfl⟩

namespace Sample

/-- A text of one byte, which is no JSON. -/
def brace : ByteArray := "\x7b".toUTF8

/-- A text of two bytes. -/
def braces : ByteArray := "\x7b\x7d".toUTF8

/-- A loader of at most two files of one byte. -/
def strict : Loader := ⟨Grammar.parser, ⟨2, 1⟩, []⟩

/-- A tree with these in a directory, listed like that. -/
def listed (entries : List (FileName × FileNode)) : FileTree :=
  ⟨.directory 4096 [(.ofText "defs", .directory 4096 entries)], []⟩

theorem list_listed (entries : List (FileName × FileNode)) :
    (listed entries).list "defs" = .ok entries := by
  have hnames : FileTree.namesOf "defs" = ["defs"] := by
    rw [FileTree.namesOf, String.splitToList_of_valid]
    decide
  have hsize : ¬ FileTree.pathLimit ≤ "defs".utf8ByteSize := by decide
  have hstart : (listed entries).start "defs" = [] := by
    rw [FileTree.start]
    exact ite_self []
  have htop : (listed entries).top.descend? [] =
      some (.directory 4096 [(.ofText "defs", .directory 4096 entries)]) := rfl
  have hentry : Entries.get? [(FileName.ofText "defs", FileNode.directory 4096 entries)]
      (.ofText "defs") = some (.directory 4096 entries) := if_pos rfl
  have hdefs : (listed entries).top.descend? [.ofText "defs"] =
      some (.directory 4096 entries) := by
    simp [FileNode.descend?, FileNode.child?, listed, hentry]
  have hwalk : (listed entries).walk FileTree.maxLinks [] ["defs"] =
      .ok (.directory 4096 entries) :=
    (FileTree.walk_cons_of_entry htop (by decide) hentry fun _ => FileNode.noConfusion).trans
      (FileTree.walk_nil hdefs)
  rw [FileTree.list, FileTree.find, if_neg (by decide), if_neg hsize, hnames, hstart, hwalk]

theorem entryPath_defs (name : String) : FileTree.entryPath "defs" name = "defs/" ++ name := by
  have hslash : ("defs" = "" || "defs".endsWith "/") = false := by decide +kernel
  rw [FileTree.entryPath, hslash, if_neg Bool.false_ne_true]
  rfl

/-- None of these files is refused. -/
theorem refusalOf?_entry (f : NamedFile) (h : f.name.bytes.length ≤ FileName.maxSize) :
    refusalOf? "defs" f.entry = none := by
  have hshort : ¬ FileTree.pathLimit ≤ FileTree.entryPathSize "defs" f.name := by
    rw [FileTree.entryPathSize, entryPath_defs]
    have hlimit : "defs/".utf8ByteSize + FileName.maxSize < FileTree.pathLimit := by decide
    have hempty : ("defs/" ++ "").utf8ByteSize = "defs/".utf8ByteSize := by
      rw [String.append_empty]
    omega
  unfold refusalOf?
  rw [NamedFile.entry, if_neg hshort]
  exact ite_self none

theorem brace_gives_iff {path : String} {result : Except LoadError Source} :
    FileGives strict.parser strict.limits path brace result ↔ result = .error (.notJson path) := by
  have htext : String.fromUTF8? brace = some "\x7b" := by decide
  constructor
  · intro h
    cases h with
    | tooLarge hsize => exact absurd hsize (by decide)
    | notUtf8 _ hnone => cases htext.symm.trans hnone
    | invalid _ hsome hparse =>
      obtain rfl := Option.some.inj (htext.symm.trans hsome)
      exact congrArg Except.error (Except.error.inj hparse).symm
    | document _ hsome hparse =>
      obtain rfl := Option.some.inj (htext.symm.trans hsome)
      cases hparse
  · rintro rfl
    exact .invalid (by decide) htext rfl

/-- The two files. -/
def upper : NamedFile := ⟨.ofText "A.SERVICES.JSON", brace⟩

def lower : NamedFile := ⟨.ofText "b.services.json", braces⟩

/-- They are listed with a link that is no definition file. -/
def listing : List (FileName × FileNode) :=
  [lower.entry, (.ofText "notes.txt", .link "b.services.json"), upper.entry]

theorem listing_nodup : (Entries.keys listing).Nodup := by
  decide

/-- Its files are read with the upper one first. -/
theorem inNameOrder_listing : InNameOrder listing [upper, lower] := by
  have hupper : upper.name.IsDefinition := by
    refine FileName.isDefinitionName_text_iff.mp ?_
    decide
  have hlower : lower.name.IsDefinition := by
    refine FileName.isDefinitionName_text_iff.mp ?_
    decide
  have hbytes : upper.name.bytes < lower.name.bytes := by decide
  have htexts : Text.bytes upper.name.text ≤ Text.bytes lower.name.text := by decide
  refine ⟨fun f => ?_, ?_, ?_, ?_⟩
  · have hmem : f.entry ∈ listing ↔ f = upper ∨ f = lower := by
      rw [listing, List.mem_cons, List.mem_cons, List.mem_singleton,
        NamedFile.entry_injective.eq_iff, NamedFile.entry_injective.eq_iff]
      constructor
      · rintro (rfl | hlink | rfl)
        · exact .inr rfl
        · cases (Prod.mk.inj hlink).2
        · exact .inl rfl
      · rintro (rfl | rfl)
        · exact .inr (.inr rfl)
        · exact .inl rfl
    rw [hmem, List.mem_cons, List.mem_singleton]
    constructor
    · rintro (rfl | rfl)
      · exact ⟨.inl rfl, hupper⟩
      · exact ⟨.inr rfl, hlower⟩
    · exact And.left
  · refine List.nodup_cons.mpr ⟨fun hmem => ?_, List.nodup_singleton _⟩
    have heq : upper.name = lower.name := congrArg NamedFile.name (List.mem_singleton.mp hmem)
    exact absurd heq (by decide)
  · exact List.pairwise_pair.mpr htexts
  · exact List.pairwise_pair.mpr fun _ _ => hbytes

theorem not_refuses_listing (fault : ReadFault) : ¬ Refuses "defs" listing fault := by
  have hnotes : refusalOf? "defs" (.ofText "notes.txt", .link "b.services.json") = none :=
    if_neg (by decide)
  have hnone : refusal? "defs" listing = none := by
    rw [refusal?, listing, List.findSome?_cons, refusalOf?_entry lower (by decide),
      List.findSome?_cons, hnotes, List.findSome?_cons, refusalOf?_entry upper (by decide)]
    rfl
  exact refusal?_eq_none_iff.mp hnone fault

end Sample

/-- A listing of two files, and the same backwards: the name in upper case
comes first, and the file gives no document and ends the call. -/
theorem Loader.addDirectory_exact_listing :
    InNameOrder Sample.listing ([] ++ Sample.upper :: [Sample.lower]) ∧
    FileGives Sample.strict.parser Sample.strict.limits "defs/A.SERVICES.JSON"
      Sample.upper.content (.error (.notJson "defs/A.SERVICES.JSON")) ∧
    Sample.strict.addDirectory (Sample.listed Sample.listing) "defs" =
      (Sample.strict, .error (.notJson "defs/A.SERVICES.JSON")) ∧
    Sample.strict.addDirectory (Sample.listed Sample.listing.reverse) "defs" =
      (Sample.strict, .error (.notJson "defs/A.SERVICES.JSON")) := by
  have hnodup : (Entries.keys Sample.listing.reverse).Nodup := by
    rw [Entries.keys, List.map_reverse]
    exact List.nodup_reverse.mpr Sample.listing_nodup
  have htexts : DistinctTexts Sample.listing := by
    refine .of_isText Sample.listing_nodup fun e he _ => ?_
    simp only [Sample.listing, List.mem_cons, List.not_mem_nil, or_false] at he
    obtain rfl | rfl | rfl := he
    all_goals exact ⟨_, rfl⟩
  obtain ⟨hends, hother⟩ := Loader.addDirectory_exact Sample.strict
    (Sample.list_listed Sample.listing) Sample.listing_nodup
  obtain ⟨-, hsame | ⟨fault, -, hrefuses, -⟩⟩ := hother _ _
    (Sample.list_listed Sample.listing.reverse) hnodup fun e _ => List.mem_reverse.symm
  · rw [hsame htexts]
    have horder := Sample.inNameOrder_listing
    refine ⟨horder, Sample.brace_gives_iff.mpr rfl, ?_⟩
    suffices hresult : Sample.strict.addDirectory (Sample.listed Sample.listing) "defs" =
        (Sample.strict, .error (.notJson "defs/A.SERVICES.JSON")) from ⟨hresult, hresult⟩
    generalize Sample.strict.addDirectory (Sample.listed Sample.listing) "defs" = result at hends ⊢
    cases hends with
    | refused h => exact absurd h (Sample.not_refuses_listing _)
    | tooMany _ hfiles hlimit =>
      obtain rfl := hfiles.unique htexts horder
      exact absurd hlimit (by decide)
    | @stops before after f sources error _ hfiles _ hbefore hfault =>
      have hsplit : before ++ f :: after = [Sample.upper, Sample.lower] :=
        hfiles.unique htexts horder
      cases before with
      | nil =>
        obtain ⟨rfl, -⟩ := List.cons.inj hsplit
        cases hbefore
        have hpath : Sample.upper.pathIn "defs" = "defs/A.SERVICES.JSON" := by
          rw [NamedFile.pathIn, Sample.entryPath_defs, Sample.upper, FileName.text_ofText]
          rfl
        rw [Loader.extended_nil, Except.error.inj (Sample.brace_gives_iff.mp hfault), hpath]
      | cons g rest =>
        obtain ⟨rfl, -⟩ := List.cons.inj hsplit
        cases hbefore with
        | cons hgives => cases Sample.brace_gives_iff.mp hgives
    | @adds files sources _ hfiles _ hdocuments =>
      obtain rfl := hfiles.unique htexts horder
      cases hdocuments with
      | cons hgives => cases Sample.brace_gives_iff.mp hgives
  · exact absurd hrefuses (Sample.not_refuses_listing _)

namespace Sample

/-- Two files under names that are not UTF-8, and that share a text. -/
def foreign : NamedFile := ⟨⟨0xFE :: Text.bytes ".services.json"⟩, brace⟩

def alien : NamedFile := ⟨⟨0xFF :: Text.bytes ".services.json"⟩, braces⟩

/-- A text that is a document of nothing. -/
def blankText : String :=
  "\x7b\"$schema\":\"http://api.nexus/draft-01/schema#\",\"services\":[]\x7d"

/-- A file with it. -/
def blank : NamedFile := ⟨.ofText "a.services.json", blankText.toUTF8⟩

/-- A path of nothing but slashes, which leads to the top. -/
def slashes (n : Nat) : String := String.ofList (List.replicate n '/')

/-- A tree with the blank document at the top. -/
def blankTree : FileTree := ⟨.directory 4096 [blank.entry], []⟩

theorem utf8ByteSize_slashes (n : Nat) : (slashes n).utf8ByteSize = n := by
  rw [slashes, String.utf8ByteSize_ofList]
  induction n with
  | zero => rfl
  | succ n ih =>
    rw [List.replicate_succ, String.utf8Len_cons, ih]
    rfl

theorem namesOf_slashes (n : Nat) : FileTree.namesOf (slashes n) = [] := by
  have hparts : ∀ part ∈ List.splitOnP (fun c => decide (c = '/')) (List.replicate n '/'),
      part = [] := by
    induction n with
    | zero => simp
    | succ n ih =>
      intro part hpart
      rw [List.replicate_succ, List.splitOnP_cons_eq_if_modifyHead, if_pos (by decide)] at hpart
      obtain rfl | hpart := List.mem_cons.mp hpart
      · rfl
      · exact ih part hpart
  rw [FileTree.namesOf, String.splitToList_of_valid, slashes, String.toList_ofList,
    List.filter_eq_nil_iff]
  intro name hname
  obtain ⟨part, hpart, rfl⟩ := List.mem_map.mp hname
  rw [hparts part hpart]
  decide

theorem list_slashes : blankTree.list (slashes 4095) = .ok [blank.entry] := by
  have hsize := utf8ByteSize_slashes 4095
  have hne : slashes 4095 ≠ "" := by
    intro hempty
    rw [hempty] at hsize
    exact absurd hsize (by decide)
  have hstart : blankTree.start (slashes 4095) = [] := by
    rw [FileTree.start]
    exact ite_self []
  have htop : blankTree.top.descend? [] = some (.directory 4096 [blank.entry]) := rfl
  rw [FileTree.list, FileTree.find, if_neg hne, hsize, if_neg (by decide), namesOf_slashes, hstart,
    FileTree.walk_nil htop]

theorem refusal?_slashes :
    refusal? (slashes 4095) [blank.entry] = some (.entry .nameTooLong) := by
  have hname : isDefinitionName blank.name.text = true := by decide
  have hlength : blank.name.bytes.length = 15 := by decide
  have hsize := FileTree.le_entryPathSize (slashes 4095) blank.name
  rw [utf8ByteSize_slashes, hlength] at hsize
  have hlong : FileTree.pathLimit ≤ FileTree.entryPathSize (slashes 4095) blank.name :=
    Nat.le_trans (by decide) hsize
  rw [refusal?, List.findSome?_cons, refusalOf?, NamedFile.entry, if_pos hname, if_pos hlong]

theorem braces_gives {path : String} {result : Except LoadError Source}
    (h : FileGives strict.parser strict.limits path braces result) :
    result = .error (.notRead (.tooLarge 2 path)) := by
  have hsize : braces.size = 2 := by decide
  cases h with
  | tooLarge => rw [hsize]
  | notUtf8 hle | invalid hle | document hle =>
    rw [hsize] at hle
    exact absurd hle (by decide)

theorem blank_gives (path : String) :
    FileGives Grammar.parser .standard path blank.content (.ok ⟨path, ⟨[], []⟩⟩) := by
  have hsize : blank.content.size ≤ Limits.standard.bytes := by
    rw [blank, blankText, String.toUTF8_eq_toByteArray, String.toByteArray_ofList]
    decide
  refine .document hsize (Text.fromUTF8?_toUTF8 blankText) ?_
  have hparse : Json.parse? blankText =
      some (.object [("$schema", .string dialect), ("services", .array [])]) := by
    rw [Json.parse?, blankText, String.toList_ofList]
    rfl
  rw [DocumentParser.parse, hparse]
  rfl

/-- Of two files that share a text the one that is listed first is read
first, and can end the call. -/
theorem addDirectory_of_text {f g : NamedFile} {error : String → LoadError}
    (hf : f.name.text = "\uFFFD.services.json") (hg : g.name.text = "\uFFFD.services.json")
    (hfsize : f.name.bytes.length ≤ FileName.maxSize)
    (hgsize : g.name.bytes.length ≤ FileName.maxSize)
    (hgives : ∀ path result, FileGives strict.parser strict.limits path f.content result →
      result = .error (error path)) :
    strict.addDirectory (listed [f.entry, g.entry]) "defs" =
      (strict, .error (error "defs/\uFFFD.services.json")) := by
  have hname : isDefinitionName "\uFFFD.services.json" = true := by decide
  have hnone : refusal? "defs" [f.entry, g.entry] = none := by
    rw [refusal?, List.findSome?_cons, refusalOf?_entry f hfsize, List.findSome?_cons,
      refusalOf?_entry g hgsize]
    rfl
  have hpath : f.pathIn "defs" = "defs/\uFFFD.services.json" := by
    rw [NamedFile.pathIn, hf, entryPath_defs]
    rfl
  have hfiles : definitionFiles [f.entry, g.entry] = [f.entry, g.entry] := by
    rw [definitionFiles, List.filter_eq_self.mpr ?_]
    · refine List.mergeSort_of_pairwise (List.pairwise_pair.mpr ?_)
      simp [nameLe, NamedFile.entry, hf, hg]
    · simp [NamedFile.entry, hf, hg, hname]
  have hadd : strict.addFiles "defs" [f.entry, g.entry] =
      (strict, .error (error "defs/\uFFFD.services.json")) := by
    rw [NamedFile.entry, Loader.addFiles, ← NamedFile.pathIn, hpath]
    obtain ⟨source, hsource, -⟩ | ⟨error', herror, hnode⟩ :=
      strict.addNode_cases "defs/\uFFFD.services.json" f.content
    · cases hgives _ _ hsource
    · rw [hnode, Except.error.inj (hgives _ _ herror)]
  rw [Loader.addDirectory_eq (list_listed _), hnone, hfiles, hadd]
  rfl

end Sample

/-- **A directory is not always told by the set of its entries and their
documents.** Two files whose names share a text are read as they are
listed, and the first of them ends the call. And one file, with a document
and within the limits, refuses its directory where the path to it is too
long. -/
theorem Loader.addDirectory_listing :
    (Sample.strict.addDirectory (Sample.listed [Sample.foreign.entry, Sample.alien.entry]) "defs" =
        (Sample.strict, .error (.notJson "defs/\uFFFD.services.json")) ∧
      Sample.strict.addDirectory (Sample.listed [Sample.alien.entry, Sample.foreign.entry]) "defs" =
        (Sample.strict, .error (.notRead (.tooLarge 2 "defs/\uFFFD.services.json")))) ∧
    ∃ l, Loader.new Grammar.library .standard = .ok l ∧
      (∀ path, ∃ source,
        FileGives l.parser l.limits path Sample.blank.content (.ok source)) ∧
      Sample.blankTree.list (Sample.slashes 4095) = .ok [Sample.blank.entry] ∧
      l.addDirectory Sample.blankTree (Sample.slashes 4095) =
        (l, .error (.notRead (.entry .nameTooLong))) := by
  refine ⟨⟨?_, ?_⟩, _, Grammar.newLoader_eq .standard,
    fun path => ⟨_, Sample.blank_gives path⟩, Sample.list_slashes, ?_⟩
  · exact @Sample.addDirectory_of_text Sample.foreign Sample.alien .notJson (by decide)
      (by decide) (by decide) (by decide) fun _ _ => Sample.brace_gives_iff.mp
  · exact @Sample.addDirectory_of_text Sample.alien Sample.foreign
      (fun path => .notRead (.tooLarge 2 path)) (by decide) (by decide)
      (by decide) (by decide) fun _ _ => Sample.braces_gives
  · rw [Loader.addDirectory_eq Sample.list_slashes, Sample.refusal?_slashes]

end Definition

end ServiceContracts
