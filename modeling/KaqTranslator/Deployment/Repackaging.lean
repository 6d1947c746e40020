import KaqTranslator.Library.FileTree
import KaqTranslator.Text

/-!
# Repackaging an artifact (`deployment/package_model.py`)

The archive of a training run is extracted without its checkpoints, the inference code is put next to what has
been extracted, and everything is archived again.  What is left out is decided by the names of the members,
but they are extracted to the paths that the names stand for: `./checkpoints` is another name for the path of
`checkpoints`.
-/

namespace KaqTranslator

open FileTree

variable {β : Type*}

/-! ### Names and paths -/

/-- `tarfile.TarInfo`, of a file or a directory.  Its name is relative and does not lead upwards. -/
structure TarMember (β : Type*) where
  name : Str
  node : FileNode β
  relative : name.head? ≠ some '/' ∧ "..".toList ∉ name.splitOn '/'

/-- The path that the operating system reads in a name: no component is empty or `.` -/
def TarMember.path (member : TarMember β) : List Str :=
  (member.name.splitOn '/').filter fun component => component ≠ [] ∧ component ≠ ['.']

/-- Trailing slashes apart, the last component is `.`, and so the name can only be that of a directory. -/
def TarMember.endsInDot (member : TarMember β) : Bool :=
  ((member.name.splitOn '/').filter fun component => component ≠ []).getLast? = some ['.']

def TarMember.entry (member : TarMember β) : List Str × FileNode β := (member.path, member.node)

/-! ### Repackaging -/

def codeSubdirName : Str := "code".toList

def checkpointsName : Str := "checkpoints".toList

/-- `member.name != "checkpoints" and not member.name.startswith("checkpoints/")` -/
def TarMember.isKept (member : TarMember β) : Bool :=
  member.name ≠ checkpointsName && !(checkpointsName ++ ['/']).isPrefixOf member.name

def keptMembers (members : List (TarMember β)) : List (TarMember β) := members.filter TarMember.isKept

/-- `TarFile._extract_member`, if it does not raise an `OSError` -/
def extractMember (extract_dir : FileTree Str β) (member : TarMember β) : Option (FileTree Str β) :=
  match member.node with
  | .directory => extract_dir.makeDirs member.path
  | .file bytes => if member.endsInDot then none else extract_dir.write member.path bytes

def extractall (members : List (TarMember β)) : Option (FileTree Str β) :=
  members.foldlM extractMember FileTree.empty

/-- `repackage_model_artifact`, from the members of the source archive to those of the output -/
def repackageModelArtifact (members : List (TarMember β)) (code_dir : FileTree Str β) :
    Option (List (List Str × FileNode β)) :=
  (extractall (keptMembers members)).bind fun extract_dir =>
    (extract_dir.graft codeSubdirName code_dir).map fun extract_dir =>
      -- `tar.add` lists every directory in the order of the names
      extract_dir.members.insertionSort fun e f => e.1 ≤ f.1

/-! ### Extraction -/

section Extraction

variable {members : List (TarMember β)}

/-- A file has a name for a file, and no path is that of a file and of a directory. -/
def Extractable (members : List (TarMember β)) : Prop :=
  (∀ member ∈ members, member.node ≠ .directory → member.endsInDot = false) ∧
    Consistent (members.map TarMember.entry)

theorem extractMember_eq_add {member : TarMember β} (h : member.node ≠ .directory → member.endsInDot = false)
    (t : FileTree Str β) : extractMember t member = t.add member.entry := by
  unfold extractMember FileTree.add TarMember.entry
  cases hnode : member.node with
  | directory => rfl
  | file bytes =>
    have hname : member.endsInDot = false := h (by rw [hnode]; exact fun heq => by cases heq)
    show (if member.endsInDot then none else t.write member.path bytes) = t.write member.path bytes
    rw [hname]
    rfl

theorem extractall_concat (members : List (TarMember β)) (member : TarMember β) :
    extractall (members ++ [member]) = (extractall members).bind fun t => extractMember t member := by
  rw [extractall, List.foldlM_append]
  simp only [List.foldlM_cons, List.foldlM_nil, bind_pure]
  rfl

theorem extractall_eq_unpack (h : ∀ member ∈ members, member.node ≠ .directory → member.endsInDot = false) :
    extractall members = unpack (members.map TarMember.entry) := by
  induction members using List.reverseRecOn with
  | nil => rfl
  | append_singleton members member ih =>
    have hlast := h member (List.mem_append_right _ (List.mem_singleton_self member))
    rw [extractall_concat, List.map_append, List.map_singleton, unpack_concat,
      ih fun member hmember => h member (List.mem_append_left _ hmember)]
    exact congrArg _ (funext fun t => extractMember_eq_add hlast t)

/-- A file whose name ends in a dot cannot be opened. -/
theorem extractall_of_endsInDot
    (h : ∃ member ∈ members, member.node ≠ .directory ∧ member.endsInDot = true) :
    extractall members = none := by
  induction members using List.reverseRecOn with
  | nil =>
    obtain ⟨member, hmember, -⟩ := h
    cases hmember
  | append_singleton members last ih =>
    rw [extractall_concat]
    obtain ⟨member, hmember, hfile, hdot⟩ := h
    rcases List.mem_append.1 hmember with hmember | hmember
    · rw [ih ⟨member, hmember, hfile, hdot⟩, Option.bind_none]
    · obtain rfl := List.mem_singleton.1 hmember
      have hfails : ∀ t, extractMember t member = none := by
        intro t
        unfold extractMember
        cases hnode : member.node with
        | directory => exact absurd hnode hfile
        | file bytes => exact if_pos hdot
      rw [Option.bind_eq_none_iff]
      exact fun t _ => hfails t

theorem exists_extractall (h : Extractable members) :
    ∃ t, extractall members = some t ∧ Unpacked (members.map TarMember.entry) t := by
  rw [extractall_eq_unpack h.1]
  exact unpack_of_consistent h.2

theorem extractall_eq_none (h : ¬ Extractable members) : extractall members = none := by
  by_cases hnames : ∀ member ∈ members, member.node ≠ .directory → member.endsInDot = false
  · rw [extractall_eq_unpack hnames]
    exact unpack_eq_none fun hconsistent => h ⟨hnames, hconsistent⟩
  · obtain ⟨member, hrest⟩ := not_forall.1 hnames
    obtain ⟨hmember, hrest⟩ := Classical.not_imp.1 hrest
    obtain ⟨hfile, hdot⟩ := Classical.not_imp.1 hrest
    exact extractall_of_endsInDot ⟨member, hmember, hfile, by simpa using hdot⟩

end Extraction

/-! ### What is left out -/

section Kept

variable {members : List (TarMember β)}

/-- Whatever the name test drops lies at `checkpoints` or below. -/
theorem path_of_not_isKept {member : TarMember β} (h : member.isKept = false) :
    ∃ q, member.path = checkpointsName :: q := by
  have hslash : '/' ∉ checkpointsName := by decide +kernel
  have hname : checkpointsName ≠ [] ∧ checkpointsName ≠ ['.'] := by decide +kernel
  have hfilter : ∀ rest : List Str, ∃ q,
      ((checkpointsName :: rest).filter fun component => component ≠ [] ∧ component ≠ ['.']) =
        checkpointsName :: q :=
    fun rest => ⟨_, List.filter_cons_of_pos (decide_eq_true hname)⟩
  unfold TarMember.path
  by_cases heq : member.name = checkpointsName
  · rw [heq, List.splitOn_eq_singleton hslash]
    exact hfilter []
  · have hprefix : (checkpointsName ++ ['/']).isPrefixOf member.name = true := by
      unfold TarMember.isKept at h
      rw [decide_eq_true heq, Bool.true_and, Bool.not_eq_false'] at h
      exact h
    obtain ⟨rest, hrest⟩ := List.isPrefixOf_iff_prefix.1 hprefix
    rw [← hrest, List.append_assoc, List.singleton_append, List.splitOn_append_cons_self_of_not_mem hslash]
    exact hfilter _

/-- Elsewhere the last file is the same. -/
theorem lastFile_kept {p : List Str} (hp : ∀ q, p ≠ checkpointsName :: q) :
    lastFile ((keptMembers members).map TarMember.entry) p =
      lastFile (members.map TarMember.entry) p := by
  induction members using List.reverseRecOn with
  | nil => rfl
  | append_singleton members member ih =>
    rw [keptMembers, List.filter_append, ← keptMembers, List.map_append, List.map_append, List.map_singleton,
      lastFile_concat, ← ih]
    cases hkept : member.isKept with
    | true => rw [List.filter_singleton, hkept, cond_true, List.map_singleton, lastFile_concat]
    | false =>
      obtain ⟨q, hq⟩ := path_of_not_isKept hkept
      have hne : member.entry.1 ≠ p := fun heq => hp q (heq ▸ hq)
      rw [List.filter_singleton, hkept, cond_false, List.map_nil, List.append_nil, if_neg hne]

end Kept

/-! ### What is kept -/

/-- The output has the files of the source that are outside the directory `checkpoints` and the code's, with
their bytes, and nothing of that directory. -/
structure KeepsServable (members : List (TarMember β)) (code_dir : FileTree Str β)
    (output : List (List Str × FileNode β)) : Prop where
  files : ∀ p bytes, (p, .file bytes) ∈ output ↔
    (∀ q, p = checkpointsName :: q → q = []) ∧ lastFile (members.map TarMember.entry) p = some bytes ∨
      ∃ q, p = codeSubdirName :: q ∧ code_dir.node q = some (.file bytes)
  checkpoints : ¬ IsDirectory output [checkpointsName]

section Repackage

variable {members : List (TarMember β)} {code_dir : FileTree Str β} {output : List (List Str × FileNode β)}

/-- The steps of a run that does not fail -/
theorem repackage_eq_some (h : repackageModelArtifact members code_dir = some output) :
    ∃ extract_dir packed, Extractable (keptMembers members) ∧
      Unpacked ((keptMembers members).map TarMember.entry) extract_dir ∧
      extract_dir.graft codeSubdirName code_dir = some packed ∧
      (∀ p node, (p, node) ∈ output ↔ packed.node p = some node) ∧
      (IsDirectory output [checkpointsName] ↔ packed.node [checkpointsName] = some .directory) := by
  by_cases hextract : Extractable (keptMembers members)
  · obtain ⟨extract_dir, hdir, hunpacked⟩ := exists_extractall hextract
    unfold repackageModelArtifact at h
    rw [hdir, Option.bind_some] at h
    obtain ⟨packed, hgraft, rfl⟩ := Option.map_eq_some_iff.1 h
    have hmem : ∀ e, e ∈ packed.members.insertionSort (fun e f => e.1 ≤ f.1) ↔ e ∈ packed.members :=
      fun e => List.mem_insertionSort _
    refine ⟨extract_dir, packed, hextract, hunpacked, hgraft, fun p node => ?_, ?_⟩
    · rw [hmem, mem_members]
    · rw [← isDirectory_members]
      exact exists_congr fun e => and_congr_left fun _ => hmem e
  · unfold repackageModelArtifact at h
    rw [extractall_eq_none hextract, Option.bind_none] at h
    cases h

theorem node_code_eq_none_iff {extract_dir : FileTree Str β}
    (h : Unpacked (members.map TarMember.entry) extract_dir) :
    extract_dir.node [codeSubdirName] = none ↔ ∀ member ∈ members, ¬ [codeSubdirName] <+: member.path := by
  have hsome := h.isSome_node (List.cons_ne_nil codeSubdirName [])
  rw [← Option.not_isSome_iff_eq_none, hsome]
  constructor
  · exact fun hnone member hmember hunder => hnone ⟨member.entry, List.mem_map_of_mem hmember, hunder⟩
  · rintro hnone ⟨e, he, hunder⟩
    obtain ⟨member, hmember, rfl⟩ := List.mem_map.1 he
    exact hnone member hmember hunder

private theorem checkpointsName_ne : checkpointsName ≠ codeSubdirName := by decide +kernel

theorem node_packed {extract_dir packed : FileTree Str β}
    (h : extract_dir.graft codeSubdirName code_dir = some packed) {a : Str} (ha : a ≠ codeSubdirName)
    (q : List Str) : packed.node (a :: q) = extract_dir.node (a :: q) := by
  rw [node_graft h, graftedNode_cons, if_neg ha]

theorem file_packed_code {extract_dir packed : FileTree Str β}
    (h : extract_dir.graft codeSubdirName code_dir = some packed) (q : List Str) (bytes : β) :
    packed.node (codeSubdirName :: q) = some (.file bytes) ↔ code_dir.node q = some (.file bytes) := by
  rw [node_graft h, graftedNode_cons, if_pos rfl]
  by_cases hq : q = []
  · rw [if_pos hq, hq, code_dir.node_nil]
    exact ⟨fun heq => (by cases heq), fun heq => (by cases heq)⟩
  · rw [if_neg hq]

/-- What a run that keeps the servable files says of its members -/
theorem conditions_of_keepsServable (h : repackageModelArtifact members code_dir = some output)
    (hkeeps : KeepsServable members code_dir output) :
    Extractable (keptMembers members) ∧ (∀ member ∈ keptMembers members, ¬ [codeSubdirName] <+: member.path) ∧
      ¬ IsDirectory ((keptMembers members).map TarMember.entry) [checkpointsName] ∧
      lastFile ((keptMembers members).map TarMember.entry) [checkpointsName] =
        lastFile (members.map TarMember.entry) [checkpointsName] := by
  obtain ⟨extract_dir, packed, hextract, hunpacked, hgraft, hmem, hdir⟩ := repackage_eq_some h
  have hnode := node_packed hgraft checkpointsName_ne []
  refine ⟨hextract, (node_code_eq_none_iff hunpacked).1 (exists_graft_iff.1 ⟨packed, hgraft⟩), ?_, ?_⟩
  · rw [← hunpacked.directory, ← hnode, ← hdir]
    exact hkeeps.checkpoints
  · -- a file at `checkpoints` is in the output if and only if it is in the source
    apply Option.ext
    intro bytes
    have hsource := hkeeps.files [checkpointsName] bytes
    rw [hmem, hnode, hunpacked.file] at hsource
    rw [hsource]
    constructor
    · rintro (⟨-, hlast⟩ | ⟨q, hq, -⟩)
      · exact hlast
      · exact absurd (List.cons.inj hq).1 checkpointsName_ne
    · exact fun hlast => Or.inl ⟨fun q hq => (List.cons.inj hq).2.symm, hlast⟩

/-- If no member is the directory `checkpoints` or lands in it, the files that are extracted are those that
are to be kept. -/
theorem lastFile_kept_iff
    (hdirectory : ¬ IsDirectory ((keptMembers members).map TarMember.entry) [checkpointsName])
    (hfile : lastFile ((keptMembers members).map TarMember.entry) [checkpointsName] =
      lastFile (members.map TarMember.entry) [checkpointsName]) (p : List Str) (bytes : β) :
    lastFile ((keptMembers members).map TarMember.entry) p = some bytes ↔
      (∀ q, p = checkpointsName :: q → q = []) ∧ lastFile (members.map TarMember.entry) p = some bytes := by
  by_cases hunder : ∃ q, p = checkpointsName :: q
  · obtain ⟨q, rfl⟩ := hunder
    by_cases hq : q = []
    · subst hq
      rw [hfile]
      exact ⟨fun hlast => ⟨fun r hr => (List.cons.inj hr).2.symm, hlast⟩, fun h => h.2⟩
    · constructor
      · -- such a file would be in the directory
        intro hlast
        obtain ⟨bytes', hmem⟩ := hasFile_of_lastFile hlast
        have hmakes : Makes (checkpointsName :: q, FileNode.file bytes') [checkpointsName] :=
          ⟨List.cons_ne_nil _ _, ⟨q, rfl⟩, fun heq => absurd (List.cons.inj heq).2.symm hq⟩
        exact absurd ⟨_, hmem, hmakes⟩ hdirectory
      · exact fun h => absurd (h.1 q rfl) hq
  · have hother : ∀ r, p ≠ checkpointsName :: r := fun r hr => hunder ⟨r, hr⟩
    rw [lastFile_kept hother]
    exact ⟨fun hlast => ⟨fun r hr => absurd hr (hother r), hlast⟩, fun h => h.2⟩

theorem lastFile_kept_nil (h : Extractable (keptMembers members)) (bytes : β) :
    lastFile ((keptMembers members).map TarMember.entry) [] ≠ some bytes :=
  fun hlast => absurd rfl (h.2 [] (hasFile_of_lastFile hlast)).1

theorem lastFile_kept_code (h : ∀ member ∈ keptMembers members, ¬ [codeSubdirName] <+: member.path)
    (q : List Str) (bytes : β) :
    lastFile ((keptMembers members).map TarMember.entry) (codeSubdirName :: q) ≠ some bytes := by
  intro hlast
  obtain ⟨bytes', hmem⟩ := hasFile_of_lastFile hlast
  obtain ⟨member, hmember, heq⟩ := List.mem_map.1 hmem
  have hpath : member.path = codeSubdirName :: q := congrArg Prod.fst heq
  exact h member hmember ⟨q, hpath.symm⟩

theorem keepsServable_of_conditions (hextract : Extractable (keptMembers members))
    (hcode : ∀ member ∈ keptMembers members, ¬ [codeSubdirName] <+: member.path)
    (hdirectory : ¬ IsDirectory ((keptMembers members).map TarMember.entry) [checkpointsName])
    (hfile : lastFile ((keptMembers members).map TarMember.entry) [checkpointsName] =
      lastFile (members.map TarMember.entry) [checkpointsName]) :
    ∃ output, repackageModelArtifact members code_dir = some output ∧
      KeepsServable members code_dir output := by
  obtain ⟨extract_dir, hdir, hunpacked⟩ := exists_extractall hextract
  obtain ⟨packed, hgraft⟩ := exists_graft_iff.2 ((node_code_eq_none_iff hunpacked).2 hcode)
  obtain ⟨output, hrun⟩ : ∃ output, repackageModelArtifact members code_dir = some output := by
    unfold repackageModelArtifact
    rw [hdir, Option.bind_some, hgraft]
    exact ⟨_, rfl⟩
  refine ⟨output, hrun, ?_⟩
  obtain ⟨extract_dir, packed, -, hunpacked, hgraft, hmem, hdir⟩ := repackage_eq_some hrun
  constructor
  case files =>
    intro p bytes
    rw [hmem, ← lastFile_kept_iff hdirectory hfile]
    cases p with
    | nil =>
      rw [packed.node_nil]
      constructor
      · intro heq
        cases heq
      · rintro (hlast | ⟨q, hq, -⟩)
        · exact absurd hlast (lastFile_kept_nil hextract bytes)
        · cases hq
    | cons a q =>
      by_cases ha : a = codeSubdirName
      · subst ha
        rw [file_packed_code hgraft, or_iff_right (lastFile_kept_code hcode q bytes)]
        constructor
        · exact fun hnode => ⟨q, rfl, hnode⟩
        · rintro ⟨q', hq', hnode⟩
          rwa [(List.cons.inj hq').2]
      · have hnotCode : ¬ ∃ q', a :: q = codeSubdirName :: q' ∧ code_dir.node q' = some (.file bytes) :=
          fun ⟨q', hq', _⟩ => ha (List.cons.inj hq').1
        rw [node_packed hgraft ha, hunpacked.file, or_iff_left hnotCode]
  case checkpoints =>
    rw [hdir, node_packed hgraft checkpointsName_ne, hunpacked.directory]
    exact hdirectory

end Repackage

/-- Repackaging keeps the servable files if and only if the members that pass the name test can be extracted,
none lands at `code` or below, none is the directory `checkpoints` or lands in it, and a file `checkpoints`
that the source has last is among them. -/
theorem repackage_keeps_servable_iff (members : List (TarMember β)) (code_dir : FileTree Str β) :
    (∃ output, repackageModelArtifact members code_dir = some output ∧ KeepsServable members code_dir output) ↔
      Extractable (keptMembers members) ∧ (∀ member ∈ keptMembers members, ¬ [codeSubdirName] <+: member.path) ∧
        ¬ IsDirectory ((keptMembers members).map TarMember.entry) [checkpointsName] ∧
        lastFile ((keptMembers members).map TarMember.entry) [checkpointsName] =
          lastFile (members.map TarMember.entry) [checkpointsName] := by
  constructor
  · rintro ⟨output, hrun, hkeeps⟩
    exact conditions_of_keepsServable hrun hkeeps
  · rintro ⟨hextract, hcode, hdirectory, hfile⟩
    exact keepsServable_of_conditions hextract hcode hdirectory hfile

/-- A member of an archive that has been made of `.`, as all names in it begin with `./` -/
def dotSlashMember : TarMember ℕ where
  name := "./checkpoints/optimizer.pt".toList
  node := .file 0
  relative := by decide +kernel

/-- The name test does not see the checkpoint, and it is packed. -/
theorem repackage_leaks_checkpoints :
    ¬ ∃ output, repackageModelArtifact [dotSlashMember] FileTree.empty = some output ∧
      KeepsServable [dotSlashMember] FileTree.empty output := by
  have hkept : dotSlashMember.isKept = true := by decide +kernel
  have hpath : dotSlashMember.path = [checkpointsName, "optimizer.pt".toList] := by decide +kernel
  rintro ⟨output, hrun, hkeeps⟩
  obtain ⟨-, -, hdirectory, -⟩ := conditions_of_keepsServable hrun hkeeps
  apply hdirectory
  rw [keptMembers, List.filter_cons_of_pos hkept, List.filter_nil, List.map_singleton]
  refine ⟨dotSlashMember.entry, List.mem_singleton_self _, List.cons_ne_nil _ _, ?_, ?_⟩
  · show [checkpointsName] <+: dotSlashMember.path
    rw [hpath]
    exact ⟨["optimizer.pt".toList], rfl⟩
  · intro heq
    have hpath' : [checkpointsName] = dotSlashMember.path := heq
    rw [hpath] at hpath'
    cases (List.cons.inj hpath').2

end KaqTranslator
