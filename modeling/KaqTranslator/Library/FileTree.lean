import KaqTranslator.Library.Dict
import Mathlib.Data.List.Infix

/-!
# Trees of files

A tree has files and directories at the paths below its root, and what it has lies in a directory that it has,
too; so everything above a file or a directory is a directory (`node_of_prefix`).

An archive is unpacked member by member, and the directories above a member are made if they are missing.
That succeeds if and only if no path is one of a file and one of a directory, and then every file has the
bytes of the last member at its path (`unpack_of_consistent`, `unpack_eq_none`).
-/

inductive FileNode (β : Type*)
  | directory
  | file (bytes : β)
  deriving DecidableEq

def FileNode.bytes {β : Type*} : FileNode β → Option β
  | .directory => none
  | .file bytes => some bytes

structure FileTree (ν β : Type*) [DecidableEq ν] where
  nodes : Dict (List ν) (FileNode β)
  root : nodes.lookup [] = none
  above : ∀ p a, p ≠ [] → (nodes.lookup (p ++ [a])).isSome → nodes.lookup p = some .directory

namespace FileTree

variable {ν β : Type*}

/-- The directories of a path, itself included -/
def directories (p : List ν) : List (List ν) := p.inits.filter (· ≠ [])

theorem mem_directories {p q : List ν} : q ∈ directories p ↔ q <+: p ∧ q ≠ [] := by
  rw [directories, List.mem_filter, List.mem_inits, decide_eq_true_iff]

private theorem prefix_dropLast_iff {p q : List ν} (hp : p ≠ []) : q <+: p.dropLast ↔ q <+: p ∧ q ≠ p := by
  have hsplit : p.dropLast ++ [p.getLast hp] = p := List.dropLast_append_getLast hp
  have hlength : p.dropLast.length < p.length := by
    have hpos := List.length_pos_iff.2 hp
    rw [List.length_dropLast]
    omega
  constructor
  · intro h
    refine ⟨h.trans (List.dropLast_prefix p), fun heq => ?_⟩
    have hle := h.length_le
    rw [heq] at hle
    omega
  · rintro ⟨h, hne⟩
    rw [← hsplit] at h
    exact (List.prefix_concat_iff.1 h).resolve_left fun heq => hne (heq.trans hsplit)

/-! ### Archives -/

section Archives

/-- A member makes the directories above it, and itself if it is one. -/
def Makes (e : List ν × FileNode β) (q : List ν) : Prop := q ≠ [] ∧ q <+: e.1 ∧ (q = e.1 → e.2 = .directory)

theorem makes_directory {p q : List ν} : Makes (p, (.directory : FileNode β)) q ↔ q <+: p ∧ q ≠ [] :=
  ⟨fun h => ⟨h.2.1, h.1⟩, fun h => ⟨h.2, h.1, fun _ => rfl⟩⟩

theorem makes_file {p q : List ν} {bytes : β} (hp : p ≠ []) :
    Makes (p, FileNode.file bytes) q ↔ q <+: p.dropLast ∧ q ≠ [] := by
  rw [prefix_dropLast_iff hp]
  constructor
  · rintro ⟨hq, hqp, hdirectory⟩
    exact ⟨⟨hqp, fun heq => by cases hdirectory heq⟩, hq⟩
  · rintro ⟨⟨hqp, hne⟩, hq⟩
    exact ⟨hq, hqp, fun heq => absurd heq hne⟩

/-- There is a directory, or something below. -/
def IsDirectory (es : List (List ν × FileNode β)) (p : List ν) : Prop := ∃ e ∈ es, Makes e p

def HasFile (es : List (List ν × FileNode β)) (p : List ν) : Prop := ∃ bytes, (p, .file bytes) ∈ es

/-- No path is that of a file and of a directory, as the root is. -/
def Consistent (es : List (List ν × FileNode β)) : Prop := ∀ p, HasFile es p → p ≠ [] ∧ ¬ IsDirectory es p

theorem isDirectory_concat {es : List (List ν × FileNode β)} {e : List ν × FileNode β} {p : List ν} :
    IsDirectory (es ++ [e]) p ↔ IsDirectory es p ∨ Makes e p := by
  unfold IsDirectory
  constructor
  · rintro ⟨e', he', hmakes⟩
    rcases List.mem_append.1 he' with he' | he'
    · exact Or.inl ⟨e', he', hmakes⟩
    · exact Or.inr (List.mem_singleton.1 he' ▸ hmakes)
  · rintro (⟨e', he', hmakes⟩ | hmakes)
    · exact ⟨e', List.mem_append_left _ he', hmakes⟩
    · exact ⟨e, List.mem_append_right _ (List.mem_singleton_self e), hmakes⟩

theorem hasFile_concat {es : List (List ν × FileNode β)} {e : List ν × FileNode β} {p : List ν} :
    HasFile (es ++ [e]) p ↔ HasFile es p ∨ p = e.1 ∧ e.2 ≠ .directory := by
  obtain ⟨q, node⟩ := e
  unfold HasFile
  constructor
  · rintro ⟨bytes, hmem⟩
    rcases List.mem_append.1 hmem with hmem | hmem
    · exact Or.inl ⟨bytes, hmem⟩
    · obtain ⟨rfl, rfl⟩ := Prod.mk.inj (List.mem_singleton.1 hmem)
      exact Or.inr ⟨rfl, fun h => by cases h⟩
  · rintro (⟨bytes, hmem⟩ | ⟨rfl, hfile⟩)
    · exact ⟨bytes, List.mem_append_left _ hmem⟩
    · cases node with
      | directory => exact absurd rfl hfile
      | file bytes => exact ⟨bytes, List.mem_append_right _ (List.mem_singleton_self _)⟩

theorem consistent_concat {es : List (List ν × FileNode β)} {e : List ν × FileNode β} :
    Consistent (es ++ [e]) ↔ Consistent es ∧ (∀ q, Makes e q → ¬ HasFile es q) ∧
      (e.2 ≠ .directory → e.1 ≠ [] ∧ ¬ IsDirectory es e.1) := by
  constructor
  · intro h
    refine ⟨fun p hp => ?_, fun q hq hfile => ?_, fun hfile => ?_⟩
    · obtain ⟨hne, hnot⟩ := h p (hasFile_concat.2 (Or.inl hp))
      exact ⟨hne, fun hdir => hnot (isDirectory_concat.2 (Or.inl hdir))⟩
    · exact (h q (hasFile_concat.2 (Or.inl hfile))).2 (isDirectory_concat.2 (Or.inr hq))
    · obtain ⟨hne, hnot⟩ := h e.1 (hasFile_concat.2 (Or.inr ⟨rfl, hfile⟩))
      exact ⟨hne, fun hdir => hnot (isDirectory_concat.2 (Or.inl hdir))⟩
  · rintro ⟨hes, hmakes, hfile⟩ p hp
    rcases hasFile_concat.1 hp with hp | ⟨rfl, hne⟩
    · refine ⟨(hes p hp).1, fun hdir => ?_⟩
      rcases isDirectory_concat.1 hdir with hdir | hdir
      · exact (hes p hp).2 hdir
      · exact hmakes p hdir hp
    · refine ⟨(hfile hne).1, fun hdir => ?_⟩
      rcases isDirectory_concat.1 hdir with hdir | hdir
      · exact (hfile hne).2 hdir
      · exact hne (hdir.2.2 rfl)

end Archives

variable [DecidableEq ν]

def node (t : FileTree ν β) (p : List ν) : Option (FileNode β) := t.nodes.lookup p

def isDir (t : FileTree ν β) (p : List ν) : Bool :=
  match t.node p with
  | some .directory => true
  | _ => p.isEmpty

def isFile (t : FileTree ν β) (p : List ν) : Bool :=
  match t.node p with
  | some (.file _) => true
  | _ => false

theorem isFile_iff {t : FileTree ν β} {p : List ν} :
    t.isFile p = true ↔ ∃ bytes, t.node p = some (.file bytes) := by
  unfold isFile
  cases t.node p with
  | none => simp
  | some node => cases node <;> simp

theorem isDir_iff {t : FileTree ν β} {p : List ν} :
    t.isDir p = true ↔ p = [] ∨ t.node p = some .directory := by
  unfold isDir
  cases t.node p with
  | none => simp
  | some node => cases node <;> simp

theorem node_nil (t : FileTree ν β) : t.node [] = none := t.root

def empty : FileTree ν β where
  nodes := ∅
  root := rfl
  above := fun _ _ _ h => by cases h

theorem node_empty (p : List ν) : (empty : FileTree ν β).node p = none := rfl

theorem node_of_prefix {t : FileTree ν β} {p q : List ν} (hq : q ≠ []) (hqp : q <+: p) (hne : q ≠ p)
    (hp : (t.node p).isSome) : t.node q = some .directory := by
  induction p using List.reverseRecOn with
  | nil => exact absurd (List.prefix_nil.1 hqp) hq
  | append_singleton r a ih =>
    have hqr : q <+: r := (List.prefix_concat_iff.1 hqp).resolve_left hne
    have hr : r ≠ [] := fun hnil => hq (List.prefix_nil.1 (hnil ▸ hqr))
    have hdirectory : t.node r = some .directory := t.above r a hr hp
    by_cases heq : q = r
    · rw [heq, hdirectory]
    · exact ih hqr heq (by rw [hdirectory]; rfl)

/-! ### Directories -/

section MakeDirs

private theorem lookup_makeDirs (t : FileTree ν β) (p q : List ν) :
    (t.nodes.update ((directories p).map fun q => ⟨q, .directory⟩)).lookup q =
      if q <+: p ∧ q ≠ [] then some .directory else t.node q := by
  rw [Dict.lookup_update_const]
  by_cases hq : q ∈ directories p
  · rw [if_pos hq, if_pos (mem_directories.1 hq)]
  · rw [if_neg hq, if_neg fun h => hq (mem_directories.2 h), node]

/-- `os.makedirs(path, exist_ok=True)` -/
def makeDirs (t : FileTree ν β) (p : List ν) : Option (FileTree ν β) :=
  if (directories p).any t.isFile then none
  else some
    { nodes := t.nodes.update ((directories p).map fun q => ⟨q, .directory⟩)
      root := by rw [lookup_makeDirs, if_neg fun h => h.2 rfl, node_nil]
      above := by
        intro r a hr hsome
        rw [lookup_makeDirs] at hsome ⊢
        by_cases hrp : r <+: p
        · rw [if_pos ⟨hrp, hr⟩]
        · have hbelow : ¬ (r ++ [a] <+: p ∧ r ++ [a] ≠ []) :=
            fun h => hrp ((List.prefix_append r [a]).trans h.1)
          rw [if_neg hbelow] at hsome
          rw [if_neg fun h => hrp h.1]
          exact t.above r a hr hsome }

variable {t t' : FileTree ν β} {p : List ν}

theorem exists_makeDirs_iff : (∃ t', t.makeDirs p = some t') ↔ ∀ q, q <+: p → q ≠ [] → t.isFile q = false := by
  have hany : (directories p).any t.isFile = true ↔ ∃ q, q <+: p ∧ q ≠ [] ∧ t.isFile q = true := by
    rw [List.any_eq_true]
    exact exists_congr fun q => by rw [mem_directories, and_assoc]
  unfold makeDirs
  constructor
  · rintro ⟨t', ht'⟩ q hqp hq
    by_contra hfile
    rw [if_pos (hany.2 ⟨q, hqp, hq, by simpa using hfile⟩)] at ht'
    cases ht'
  · intro h
    have hnone : ¬ (directories p).any t.isFile = true := by
      intro hsome
      obtain ⟨q, hqp, hq, hfile⟩ := hany.1 hsome
      rw [h q hqp hq] at hfile
      cases hfile
    exact ⟨_, if_neg hnone⟩

theorem node_makeDirs (h : t.makeDirs p = some t') (q : List ν) :
    t'.node q = if q <+: p ∧ q ≠ [] then some .directory else t.node q := by
  unfold makeDirs at h
  split at h
  · cases h
  · obtain rfl := Option.some.inj h
    exact lookup_makeDirs t p q

end MakeDirs

/-! ### Files -/

section Write

/-- `open(path, "wb")`, and what is written -/
def openWrite (t : FileTree ν β) (p : List ν) (bytes : β) : Option (FileTree ν β) :=
  if h : t.isDir p = true ∨ t.isDir p.dropLast = false then none
  else some
    { nodes := t.nodes.insert p (.file bytes)
      root := by
        have hp : [] ≠ p := fun hnil => h (Or.inl (isDir_iff.2 (Or.inl hnil.symm)))
        rw [AList.lookup_insert_ne hp]
        exact t.root
      above := by
        intro r a hr hsome
        have hfile : t.node p ≠ some .directory := fun hdir => h (Or.inl (isDir_iff.2 (Or.inr hdir)))
        have hdirectory : t.node r = some .directory := by
          by_cases heq : r ++ [a] = p
          · -- `r` is the directory that the file is written to
            have hparent : t.isDir p.dropLast = true := by simpa using fun hfalse => h (Or.inr hfalse)
            rw [← heq, List.dropLast_concat] at hparent
            exact (isDir_iff.1 hparent).resolve_left hr
          · rw [AList.lookup_insert_ne heq] at hsome
            exact t.above r a hr hsome
        have hne : r ≠ p := fun heq => hfile (heq ▸ hdirectory)
        rw [AList.lookup_insert_ne hne]
        exact hdirectory }

/-- The directories above a file, and then the file -/
def write (t : FileTree ν β) (p : List ν) (bytes : β) : Option (FileTree ν β) :=
  (t.makeDirs p.dropLast).bind fun t => t.openWrite p bytes

variable {t t' : FileTree ν β} {p : List ν} {bytes : β}

theorem node_openWrite (h : t.openWrite p bytes = some t') (q : List ν) :
    t'.node q = if q = p then some (.file bytes) else t.node q := by
  unfold openWrite at h
  split at h
  · cases h
  · obtain rfl := Option.some.inj h
    exact Dict.lookup_insert_eq t.nodes p q (.file bytes)

private theorem isDir_of_makeDirs (h : t.makeDirs p.dropLast = some t') :
    t'.isDir p = t.isDir p ∧ t'.isDir p.dropLast = true := by
  constructor
  · by_cases hp : p = []
    · rw [isDir_iff.2 (Or.inl hp), isDir_iff.2 (Or.inl hp)]
    · have hnode : t'.node p = t.node p := by
        rw [node_makeDirs h, if_neg fun h => ((prefix_dropLast_iff hp).1 h.1).2 rfl]
      unfold isDir
      rw [hnode]
  · rw [isDir_iff, node_makeDirs h]
    by_cases hparent : p.dropLast = []
    · exact Or.inl hparent
    · exact Or.inr (if_pos ⟨List.prefix_rfl, hparent⟩)

theorem exists_write_iff : (∃ t', t.write p bytes = some t') ↔
    t.isDir p = false ∧ ∀ q, q <+: p.dropLast → q ≠ [] → t.isFile q = false := by
  constructor
  · rintro ⟨t', ht'⟩
    obtain ⟨t₁, hdirs, hopen⟩ := Option.bind_eq_some_iff.1 ht'
    refine ⟨?_, exists_makeDirs_iff.1 ⟨t₁, hdirs⟩⟩
    by_contra hdir
    unfold openWrite at hopen
    rw [dif_pos (Or.inl (by rw [(isDir_of_makeDirs hdirs).1]; simpa using hdir))] at hopen
    cases hopen
  · rintro ⟨hdir, hfree⟩
    obtain ⟨t₁, hdirs⟩ := exists_makeDirs_iff.2 hfree
    obtain ⟨hsame, hparent⟩ := isDir_of_makeDirs hdirs
    have hallowed : ¬ (t₁.isDir p = true ∨ t₁.isDir p.dropLast = false) := by
      rw [hsame, hdir, hparent]
      simp
    exact ⟨_, Option.bind_eq_some_iff.2 ⟨t₁, hdirs, dif_neg hallowed⟩⟩

theorem node_write (h : t.write p bytes = some t') (q : List ν) :
    t'.node q =
      if q = p then some (.file bytes)
      else if q <+: p.dropLast ∧ q ≠ [] then some .directory else t.node q := by
  obtain ⟨t₁, hdirs, hopen⟩ := Option.bind_eq_some_iff.1 h
  rw [node_openWrite hopen, node_makeDirs hdirs]

end Write

/-! ### A tree below another -/

section Graft

/-- The items of `s`, below `name` -/
def below (name : ν) (s : FileTree ν β) : List (Σ _ : List ν, FileNode β) :=
  ⟨[name], .directory⟩ :: s.nodes.entries.map fun e => ⟨name :: e.1, e.2⟩

theorem keys_below (name : ν) (s : FileTree ν β) :
    (below name s).keys = [name] :: s.nodes.keys.map (name :: ·) :=
  congrArg ([name] :: ·) (Dict.keys_map (name :: ·) id s.nodes.entries)

theorem nodupKeys_below (name : ν) (s : FileTree ν β) : (below name s).NodupKeys := by
  show (below name s).keys.Nodup
  rw [keys_below, List.nodup_cons]
  constructor
  · intro hmem
    obtain ⟨q, hq, heq⟩ := List.mem_map.1 hmem
    obtain rfl : q = [] := (List.cons.inj heq).2
    have hsome := AList.lookup_isSome.2 (AList.mem_keys.2 hq)
    rw [s.root] at hsome
    cases hsome
  · exact s.nodes.nodupKeys.map fun _ _ heq => (List.cons.inj heq).2

/-- What is at a path when `s` has come below `name` -/
def graftedNode (t : FileTree ν β) (name : ν) (s : FileTree ν β) : List ν → Option (FileNode β)
  | [] => none
  | a :: q => if a = name then if q = [] then some .directory else s.node q else t.node (a :: q)

theorem graftedNode_cons (t : FileTree ν β) (name : ν) (s : FileTree ν β) (a : ν) (q : List ν) :
    graftedNode t name s (a :: q) =
      if a = name then if q = [] then some .directory else s.node q else t.node (a :: q) := rfl

private theorem lookup_graft {t : FileTree ν β} {name : ν} (s : FileTree ν β) (h : t.node [name] = none)
    (p : List ν) : (t.nodes.update (below name s)).lookup p = graftedNode t name s p := by
  rw [Dict.lookup_update (nodupKeys_below name s)]
  cases p with
  | nil =>
    have hnil : (below name s).dlookup [] = none := by
      rw [List.dlookup_eq_none, keys_below]
      simp
    rw [hnil, t.root]
    rfl
  | cons a q =>
    rw [graftedNode_cons]
    by_cases ha : a = name
    · subst ha
      rw [if_pos rfl]
      by_cases hq : q = []
      · rw [if_pos hq, hq, below, List.dlookup_cons_eq, Option.some_or]
      · have hne : a :: q ≠ [a] := fun heq => hq (List.cons.inj heq).2
        have hnone : t.nodes.lookup (a :: q) = none := by
          by_contra hsome
          have hprefix : [a] <+: a :: q := ⟨q, rfl⟩
          have hdirectory :=
            t.node_of_prefix (List.cons_ne_nil a []) hprefix hne.symm (Option.ne_none_iff_isSome.1 hsome)
          rw [h] at hdirectory
          cases hdirectory
        have hbelow : (below a s).dlookup (a :: q) = s.node q := by
          rw [below, List.dlookup_cons_ne _ _ hne]
          exact List.dlookup_map₁ s.nodes.entries (fun _ _ heq => (List.cons.inj heq).2) q
        rw [if_neg hq, hbelow, hnone, Option.or_none]
    · have hnone : (below name s).dlookup (a :: q) = none := by
        rw [List.dlookup_eq_none, keys_below, List.mem_cons, List.mem_map]
        rintro (heq | ⟨r, -, heq⟩)
        · exact ha (List.cons.inj heq).1
        · exact ha (List.cons.inj heq).1.symm
      rw [if_neg ha, hnone, Option.none_or]
      rfl

/-- `shutil.copytree(s, name)` -/
def graft (t : FileTree ν β) (name : ν) (s : FileTree ν β) : Option (FileTree ν β) :=
  if h : (t.node [name]).isSome then none
  else some
    { nodes := t.nodes.update (below name s)
      root := lookup_graft s (by simpa using h) []
      above := by
        have hfree : t.node [name] = none := by simpa using h
        intro r b hr hsome
        rw [lookup_graft s hfree] at hsome ⊢
        cases r with
        | nil => exact absurd rfl hr
        | cons a q =>
          rw [List.cons_append, graftedNode_cons] at hsome
          rw [graftedNode_cons]
          by_cases ha : a = name
          · rw [if_pos ha] at hsome ⊢
            by_cases hq : q = []
            · rw [if_pos hq]
            · rw [if_neg (List.append_ne_nil_of_right_ne_nil q (List.cons_ne_nil b []))] at hsome
              rw [if_neg hq]
              exact s.above q b hq hsome
          · rw [if_neg ha] at hsome ⊢
            exact t.above (a :: q) b hr hsome }

variable {t t' s : FileTree ν β} {name : ν}

theorem exists_graft_iff : (∃ t', t.graft name s = some t') ↔ t.node [name] = none := by
  unfold graft
  constructor
  · rintro ⟨t', ht'⟩
    by_contra hsome
    rw [dif_pos (Option.ne_none_iff_isSome.1 hsome)] at ht'
    cases ht'
  · intro h
    exact ⟨_, dif_neg (by rw [h]; simp)⟩

theorem node_graft (h : t.graft name s = some t') (p : List ν) : t'.node p = graftedNode t name s p := by
  have hfree : t.node [name] = none := exists_graft_iff.1 ⟨t', h⟩
  unfold graft at h
  split at h
  · cases h
  · obtain rfl := Option.some.inj h
    exact lookup_graft s hfree p

end Graft

/-! ### Unpacking -/

section Unpack

def add (t : FileTree ν β) (e : List ν × FileNode β) : Option (FileTree ν β) :=
  match e.2 with
  | .directory => t.makeDirs e.1
  | .file bytes => t.write e.1 bytes

def unpack (es : List (List ν × FileNode β)) : Option (FileTree ν β) := es.foldlM add empty

variable {t t' : FileTree ν β} {e : List ν × FileNode β}

theorem exists_add_iff : (∃ t', t.add e = some t') ↔
    (∀ q, Makes e q → t.isFile q = false) ∧ (e.2 ≠ .directory → t.isDir e.1 = false) := by
  obtain ⟨p, node⟩ := e
  cases node with
  | directory =>
    show (∃ t', t.makeDirs p = some t') ↔ _
    rw [exists_makeDirs_iff]
    constructor
    · exact fun h => ⟨fun q hq => h q hq.2.1 hq.1, fun hne => absurd rfl hne⟩
    · exact fun h q hqp hq => h.1 q (makes_directory.2 ⟨hqp, hq⟩)
  | file bytes =>
    show (∃ t', t.write p bytes = some t') ↔ _
    rw [exists_write_iff]
    constructor
    · rintro ⟨hdir, hfree⟩
      have hp : p ≠ [] := by
        rintro rfl
        rw [isDir_iff.2 (Or.inl rfl)] at hdir
        cases hdir
      refine ⟨fun q hq => ?_, fun _ => hdir⟩
      obtain ⟨hqp, hq⟩ := (makes_file hp).1 hq
      exact hfree q hqp hq
    · rintro ⟨hfree, hdir⟩
      have hdir : t.isDir p = false := hdir fun h => by cases h
      have hp : p ≠ [] := by
        rintro rfl
        rw [isDir_iff.2 (Or.inl rfl)] at hdir
        cases hdir
      exact ⟨hdir, fun q hqp hq => hfree q ((makes_file hp).2 ⟨hqp, hq⟩)⟩

theorem node_add_directory {p : List ν} (h : t.add (p, .directory) = some t') (q : List ν) :
    t'.node q = if q <+: p ∧ q ≠ [] then some .directory else t.node q :=
  node_makeDirs h q

theorem node_add_file {p : List ν} {bytes : β} (h : t.add (p, .file bytes) = some t') (q : List ν) :
    t'.node q =
      if q = p then some (.file bytes)
      else if q <+: p.dropLast ∧ q ≠ [] then some .directory else t.node q :=
  node_write h q

/-- The bytes of the last file at a path -/
def lastFile (es : List (List ν × FileNode β)) (p : List ν) : Option β :=
  es.foldl (fun last e => if e.1 = p then e.2.bytes.or last else last) none

theorem lastFile_concat (es : List (List ν × FileNode β)) (e : List ν × FileNode β) (p : List ν) :
    lastFile (es ++ [e]) p = if e.1 = p then e.2.bytes.or (lastFile es p) else lastFile es p := by
  rw [lastFile, List.foldl_append]
  rfl

theorem isSome_lastFile {es : List (List ν × FileNode β)} {p : List ν} :
    (lastFile es p).isSome ↔ HasFile es p := by
  induction es using List.reverseRecOn with
  | nil => simp [lastFile, HasFile]
  | append_singleton es e ih =>
    rw [lastFile_concat, hasFile_concat, ← ih]
    obtain ⟨q, node⟩ := e
    by_cases hq : q = p
    · cases node with
      | directory => simp [hq, FileNode.bytes]
      | file bytes => simp [hq, FileNode.bytes]
    · simp [hq, Ne.symm hq]

theorem hasFile_of_lastFile {es : List (List ν × FileNode β)} {p : List ν} {bytes : β}
    (h : lastFile es p = some bytes) : HasFile es p := by
  rw [← isSome_lastFile, h]
  rfl

/-- What a tree has when these members have been unpacked -/
structure Unpacked (es : List (List ν × FileNode β)) (t : FileTree ν β) : Prop where
  file : ∀ p bytes, t.node p = some (.file bytes) ↔ lastFile es p = some bytes
  directory : ∀ p, t.node p = some .directory ↔ IsDirectory es p

theorem Unpacked.isFile_iff {es : List (List ν × FileNode β)} (h : Unpacked es t) {p : List ν} :
    t.isFile p = true ↔ HasFile es p := by
  rw [FileTree.isFile_iff, ← isSome_lastFile, Option.isSome_iff_exists]
  exact exists_congr fun bytes => h.file p bytes

theorem Unpacked.exists_add_iff {es : List (List ν × FileNode β)} (h : Unpacked es t) (hes : Consistent es) :
    (∃ t', t.add e = some t') ↔ Consistent (es ++ [e]) := by
  have hisFile : ∀ q, t.isFile q = false ↔ ¬ HasFile es q := fun q => by rw [← h.isFile_iff, Bool.not_eq_true]
  have hisDir : t.isDir e.1 = false ↔ e.1 ≠ [] ∧ ¬ IsDirectory es e.1 := by
    rw [← Bool.not_eq_true, isDir_iff, h.directory, not_or]
  rw [FileTree.exists_add_iff, consistent_concat, hisDir]
  constructor
  · rintro ⟨hfree, hdir⟩
    exact ⟨hes, fun q hq => (hisFile q).1 (hfree q hq), hdir⟩
  · rintro ⟨-, hfree, hdir⟩
    exact ⟨fun q hq => (hisFile q).2 (hfree q hq), hdir⟩

section Add

variable {es : List (List ν × FileNode β)} {p : List ν}

/-- Where a member makes a directory, no file has been. -/
private theorem lastFile_eq_none_of_makes (hes : Consistent (es ++ [e])) {q : List ν} (hq : Makes e q) :
    lastFile es q = none := by
  rw [← Option.not_isSome_iff_eq_none, isSome_lastFile]
  exact (consistent_concat.1 hes).2.1 q hq

theorem Unpacked.add_directory (h : Unpacked es t) (hes : Consistent (es ++ [(p, .directory)]))
    (ht' : t.add (p, .directory) = some t') : Unpacked (es ++ [(p, .directory)]) t' := by
  have hnode := node_add_directory ht'
  constructor
  case file =>
    intro q bytes
    have hlast : lastFile (es ++ [(p, .directory)]) q = lastFile es q := by
      rw [lastFile_concat]
      split <;> rfl
    rw [hnode, hlast]
    by_cases hq : q <+: p ∧ q ≠ []
    · rw [if_pos hq, lastFile_eq_none_of_makes hes (makes_directory.2 hq)]
      simp
    · rw [if_neg hq, h.file]
  case directory =>
    intro q
    rw [hnode, isDirectory_concat, makes_directory]
    by_cases hq : q <+: p ∧ q ≠ []
    · rw [if_pos hq]
      exact ⟨fun _ => Or.inr hq, fun _ => rfl⟩
    · rw [if_neg hq, h.directory]
      exact ⟨Or.inl, fun hor => hor.resolve_right hq⟩

theorem Unpacked.add_file {bytes : β} (h : Unpacked es t) (hes : Consistent (es ++ [(p, .file bytes)]))
    (ht' : t.add (p, .file bytes) = some t') : Unpacked (es ++ [(p, .file bytes)]) t' := by
  have hnode := node_add_file ht'
  obtain ⟨hp, hnot⟩ := hes p (hasFile_concat.2 (Or.inr ⟨rfl, fun heq => by cases heq⟩))
  have hmakes : ∀ {q}, Makes (p, .file bytes) q ↔ q <+: p.dropLast ∧ q ≠ [] := makes_file hp
  constructor
  case file =>
    intro q bytes'
    by_cases hqp : q = p
    · have hlast : lastFile (es ++ [(p, .file bytes)]) q = some bytes := by
        rw [lastFile_concat, if_pos hqp.symm]
        rfl
      rw [hnode, if_pos hqp, hlast]
      simp
    · have hlast : lastFile (es ++ [(p, .file bytes)]) q = lastFile es q := by
        rw [lastFile_concat, if_neg (Ne.symm hqp)]
      rw [hnode, if_neg hqp, hlast]
      by_cases hq : q <+: p.dropLast ∧ q ≠ []
      · rw [if_pos hq, lastFile_eq_none_of_makes hes (hmakes.2 hq)]
        simp
      · rw [if_neg hq, h.file]
  case directory =>
    intro q
    rw [hnode]
    by_cases hqp : q = p
    · rw [if_pos hqp, hqp]
      exact ⟨fun heq => (by cases heq), fun hdir => absurd hdir hnot⟩
    · rw [if_neg hqp, isDirectory_concat, hmakes]
      by_cases hq : q <+: p.dropLast ∧ q ≠ []
      · rw [if_pos hq]
        exact ⟨fun _ => Or.inr hq, fun _ => rfl⟩
      · rw [if_neg hq, h.directory]
        exact ⟨Or.inl, fun hor => hor.resolve_right hq⟩

theorem Unpacked.add (h : Unpacked es t) (hes : Consistent (es ++ [e])) (ht' : t.add e = some t') :
    Unpacked (es ++ [e]) t' := by
  obtain ⟨p, node⟩ := e
  cases node with
  | directory => exact h.add_directory hes ht'
  | file bytes => exact h.add_file hes ht'

end Add

theorem unpack_concat (es : List (List ν × FileNode β)) (e : List ν × FileNode β) :
    unpack (es ++ [e]) = (unpack es).bind fun t => t.add e := by
  rw [unpack, List.foldlM_append]
  simp only [List.foldlM_cons, List.foldlM_nil, bind_pure]
  rfl

theorem unpack_of_consistent {es : List (List ν × FileNode β)} (h : Consistent es) :
    ∃ t, unpack es = some t ∧ Unpacked es t := by
  induction es using List.reverseRecOn with
  | nil =>
    refine ⟨empty, rfl, fun p bytes => ?_, fun p => ?_⟩
    · simp [node_empty, lastFile]
    · simp [node_empty, IsDirectory]
  | append_singleton es e ih =>
    obtain ⟨t, ht, hunpacked⟩ := ih (consistent_concat.1 h).1
    obtain ⟨t', ht'⟩ := (hunpacked.exists_add_iff (consistent_concat.1 h).1).2 h
    refine ⟨t', ?_, hunpacked.add h ht'⟩
    rw [unpack_concat, ht, Option.bind_some, ht']

theorem unpack_eq_none {es : List (List ν × FileNode β)} (h : ¬ Consistent es) : unpack es = none := by
  induction es using List.reverseRecOn with
  | nil =>
    have hempty : Consistent ([] : List (List ν × FileNode β)) := by
      rintro p ⟨bytes, hmem⟩
      cases hmem
    exact absurd hempty h
  | append_singleton es e ih =>
    rw [unpack_concat]
    by_cases hes : Consistent es
    · obtain ⟨t, ht, hunpacked⟩ := unpack_of_consistent hes
      rw [ht, Option.bind_some]
      by_contra hsome
      obtain ⟨t', ht'⟩ := Option.ne_none_iff_exists'.1 hsome
      exact h ((hunpacked.exists_add_iff hes).1 ⟨t', ht'⟩)
    · rw [ih hes, Option.bind_none]

end Unpack

theorem Unpacked.isSome_node {es : List (List ν × FileNode β)} {t : FileTree ν β} (h : Unpacked es t)
    {p : List ν} (hp : p ≠ []) : (t.node p).isSome ↔ ∃ e ∈ es, p <+: e.1 := by
  constructor
  · intro hsome
    obtain ⟨node, hnode⟩ := Option.isSome_iff_exists.1 hsome
    cases node with
    | directory =>
      obtain ⟨e, he, hmakes⟩ := (h.directory p).1 hnode
      exact ⟨e, he, hmakes.2.1⟩
    | file bytes =>
      obtain ⟨bytes', hmem⟩ := hasFile_of_lastFile ((h.file p bytes).1 hnode)
      exact ⟨_, hmem, List.prefix_rfl⟩
  · rintro ⟨⟨q, node⟩, he, hpq⟩
    by_cases hmakes : Makes (q, node) p
    · rw [(h.directory p).2 ⟨_, he, hmakes⟩]
      rfl
    · -- then it is a file at this very path
      have heq : p = q := by
        by_contra hne
        exact hmakes ⟨hp, hpq, fun heq => absurd heq hne⟩
      subst heq
      cases node with
      | directory => exact absurd ⟨hp, hpq, fun _ => rfl⟩ hmakes
      | file bytes =>
        obtain ⟨last, hlast⟩ := Option.isSome_iff_exists.1 (isSome_lastFile.2 ⟨bytes, he⟩)
        rw [(h.file p last).2 hlast]
        rfl

/-! ### The members of a tree -/

/-- The files and directories of a tree, with their paths -/
def members (t : FileTree ν β) : List (List ν × FileNode β) := t.nodes.entries.map fun e => (e.1, e.2)

theorem mem_members {t : FileTree ν β} {p : List ν} {node : FileNode β} :
    (p, node) ∈ t.members ↔ t.node p = some node := by
  unfold members
  rw [List.mem_map]
  constructor
  · rintro ⟨e, he, heq⟩
    obtain ⟨rfl, rfl⟩ := Prod.mk.inj heq
    exact AList.mem_lookup_iff.2 he
  · intro h
    exact ⟨⟨p, node⟩, AList.mem_lookup_iff.1 h, rfl⟩

theorem isDirectory_members {t : FileTree ν β} {p : List ν} :
    IsDirectory t.members p ↔ t.node p = some .directory := by
  constructor
  · rintro ⟨⟨q, node⟩, hmem, hp, hpq, hdirectory⟩
    have hnode := mem_members.1 hmem
    by_cases heq : p = q
    · rw [heq, hnode]
      exact congrArg some (hdirectory heq)
    · exact t.node_of_prefix hp hpq heq (by rw [hnode]; rfl)
  · intro h
    have hp : p ≠ [] := by
      rintro rfl
      rw [t.node_nil] at h
      cases h
    exact ⟨(p, .directory), mem_members.2 h, hp, List.prefix_rfl, fun _ => rfl⟩

end FileTree
