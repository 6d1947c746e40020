import Mathlib.Data.List.Nodup
import Mathlib.Data.List.Sigma
import Mathlib.Data.List.TakeWhile
import Mathlib.Logic.Function.Basic

/-!
# Argument parsers

A parser has options `--name`, each of which is a flag or stores what a conversion makes of the argument after
it, and `-h`, `--help`.  An argument string that begins with a dash may be the string of an option, an
abbreviation of it, or both with a value after `=`; otherwise it is an argument if it looks like a negative
number or has a space in it (`Parser.read`).  `Parser.consume` goes through the strings from the left.

An argument list `--key value …` is accepted exactly if every value is read as an argument and converted
(`exists_parseArgs_cliArgs_iff`), and each option then has its value (`parseArgs_cliArgs`).  Whatever the
list, the value of an option is its default or comes from its action (`parseArgs_yields`).
-/

namespace ArgParse

abbrev ArgString := List Char

inductive Action (V : Type*) where
  | flag (value : V)
  | store (convert : ArgString → Option V)  -- the `type` and the `choices`

structure Opt (V : Type*) where
  name : ArgString
  action : Action V
  default : Option V
  required : Bool

structure Parser (V : Type*) where
  options : List (Opt V)
  digit : Char → Bool  -- what `\d` matches

/-- What becomes of the parsing, if there is no result. -/
inductive Exit where
  | help
  | expectedOneArgument (option : ArgString)
  | invalidValue (option value : ArgString)
  | ignoredExplicitArgument (value : ArgString)
  | ambiguousOption (option : ArgString)
  | required (options : List ArgString)
  | unrecognized (arguments : List ArgString)
  deriving DecidableEq

/-- What an argument string is taken for -/
inductive Reading (V : Type*) where
  | argument
  | option (o : Opt V) (explicit : Option ArgString)
  | help
  | ignored (explicit : ArgString)
  | ambiguous
  | unknown

/-- The values by destination; `none` is `None`. -/
abbrev Namespace (V : Type*) := ArgString → Option V

structure State (V : Type*) where
  values : Namespace V
  seen : List ArgString
  extras : List ArgString

/-- `dest.replace("-", "_")` -/
def destination (name : ArgString) : ArgString := name.map fun c => if c = '-' then '_' else c

variable {V : Type*}

namespace Opt

def string (o : Opt V) : ArgString := '-' :: '-' :: o.name

def dest (o : Opt V) : ArgString := destination o.name

def Converts (o : Opt V) (s : ArgString) (v : V) : Prop :=
  ∃ convert, o.action = .store convert ∧ convert s = some v

theorem Converts.unique {o : Opt V} {s : ArgString} {v v' : V} (h : o.Converts s v) (h' : o.Converts s v') :
    v = v' := by
  obtain ⟨convert, haction, hv⟩ := h
  obtain ⟨convert', haction', hv'⟩ := h'
  rw [haction] at haction'
  cases haction'
  exact Option.some.inj (hv.symm.trans hv')

/-- A value that the option can give -/
def Yields (o : Opt V) (v : V) : Prop := o.action = .flag v ∨ ∃ s, o.Converts s v

end Opt

def State.store (s : State V) (o : Opt V) (v : V) : State V :=
  { s with values := Function.update s.values o.dest (some v), seen := o.string :: s.seen }

def helpStrings : List ArgString := ["-h".toList, "--help".toList]

/-- The match of `^-\d+$|^-\d*\.\d+$`, for a string that begins with a dash; `$` also matches before a line
feed at the end. -/
def isNegativeNumber (digit : Char → Bool) (arg : ArgString) : Bool :=
  let body := (if arg.getLast? = some '\n' then arg.dropLast else arg).drop 1
  match body.dropWhile digit with
  | [] => !body.isEmpty
  | '.' :: fraction => !fraction.isEmpty && fraction.all digit
  | _ => false

namespace Parser

variable (p : Parser V)

/-- The options of which the string is an abbreviation -/
def candidates (arg : ArgString) : List (Reading V) :=
  let explicit := (arg.dropWhile (· ≠ '=')).tail?
  let pre := arg.takeWhile (· ≠ '=')
  if "--".toList.isPrefixOf arg then
    ((p.options.filter fun o => pre.isPrefixOf o.string).map fun o => .option o explicit) ++
      if pre.isPrefixOf "--help".toList then [explicit.elim .help .ignored] else []
  else if "-h".toList.isPrefixOf arg then
    -- the rest of the string is taken for further short options
    [if (arg.drop 2).head? = some '-' then .ignored (arg.drop 2) else .help]
  else []

/-- What a string that is not in the parser may be -/
def readOther (arg : ArgString) : Reading V :=
  match p.candidates arg with
  | [reading] => reading
  | _ :: _ :: _ => .ambiguous
  | [] => if isNegativeNumber p.digit arg || ' ' ∈ arg then .argument else .unknown

def read (arg : ArgString) : Reading V :=
  if arg.head? ≠ some '-' then .argument
  else
    match p.options.find? fun o => o.string = arg with
    | some o => .option o none
    | none =>
      if helpStrings.contains arg then .help
      else if arg.length = 1 then .argument
      else
        let name := arg.takeWhile (· ≠ '=')
        match (arg.dropWhile (· ≠ '=')).tail?, p.options.find? fun o => o.string = name with
        | some explicit, some o => .option o (some explicit)
        | some explicit, none => if helpStrings.contains name then .ignored explicit else p.readOther arg
        | none, _ => p.readOther arg

/-- The value of an option can be this string. -/
def isArgument (arg : ArgString) : Bool :=
  match p.read arg with
  | .argument => arg ≠ "--".toList
  | _ => false

/-- The strings, from the left.  There are no positional arguments: a string that no option takes is left
over. -/
def consume : List ArgString → State V → Except Exit (State V)
  | [], s => .ok s
  | arg :: rest, s =>
    if arg = "--".toList then .ok { s with extras := s.extras ++ arg :: rest }
    else
      match p.read arg with
      | .argument => consume rest { s with extras := s.extras ++ [arg] }
      | .unknown => consume rest { s with extras := s.extras ++ [arg] }
      | .help => .error .help
      | .ignored explicit => .error (.ignoredExplicitArgument explicit)
      | .ambiguous => .error (.ambiguousOption arg)
      | .option o explicit =>
        match o.action, explicit with
        | .flag value, none => consume rest (s.store o value)
        | .flag _, some explicit => .error (.ignoredExplicitArgument explicit)
        | .store convert, some explicit =>
          match convert explicit with
          | some value => consume rest (s.store o value)
          | none => .error (.invalidValue o.string explicit)
        | .store convert, none =>
          match rest with
          | [] => .error (.expectedOneArgument o.string)
          | arg' :: rest' =>
            if p.isArgument arg' then
              match convert arg' with
              | some value => consume rest' (s.store o value)
              | none => .error (.invalidValue o.string arg')
            else .error (.expectedOneArgument o.string)

def defaults : Namespace V := fun dest => (p.options.find? fun o => o.dest = dest).bind Opt.default

def missing (s : State V) : List (Opt V) := p.options.filter fun o => o.required && !s.seen.contains o.string

def parseArgs (argv : List ArgString) : Except Exit (Namespace V) := do
  let s ← p.consume argv ⟨p.defaults, [], []⟩
  if p.missing s ≠ [] then .error (.required ((p.missing s).map Opt.string))
  else if s.extras ≠ [] then .error (.unrecognized s.extras)
  else .ok s.values

/-- The options of a parser as `add_argument` admits them; here two options have two destinations. -/
structure Lawful : Prop where
  nodup_dest : (p.options.map Opt.dest).Nodup
  no_help : ∀ o ∈ p.options, o.name ≠ "help".toList ∧ o.name ≠ []

/-! ### Option strings and values -/

variable {p}

theorem Lawful.eq_of_dest (h : p.Lawful) {o o' : Opt V} (ho : o ∈ p.options) (ho' : o' ∈ p.options)
    (hdest : o.dest = o'.dest) : o = o' :=
  List.inj_on_of_nodup_map h.nodup_dest ho ho' hdest

theorem Lawful.eq_of_name (h : p.Lawful) {o o' : Opt V} (ho : o ∈ p.options) (ho' : o' ∈ p.options)
    (hname : o.name = o'.name) : o = o' :=
  h.eq_of_dest ho ho' (by rw [Opt.dest, Opt.dest, hname])

theorem string_eq_iff {o o' : Opt V} : o.string = o'.string ↔ o.name = o'.name := by
  simp [Opt.string]

private theorem Lawful.find_string (h : p.Lawful) {o : Opt V} (ho : o ∈ p.options) :
    (p.options.find? fun o' => o'.string = o.string) = some o := by
  have hsome : (p.options.find? fun o' => o'.string = o.string).isSome := by
    rw [List.find?_isSome]
    exact ⟨o, ho, by simp⟩
  obtain ⟨o', ho'⟩ := Option.isSome_iff_exists.1 hsome
  have hstring : o'.string = o.string := by simpa using List.find?_some ho'
  rw [ho', h.eq_of_name (List.mem_of_find?_eq_some ho') ho (string_eq_iff.1 hstring)]

theorem Lawful.read_string (h : p.Lawful) {o : Opt V} (ho : o ∈ p.options) :
    p.read o.string = .option o none := by
  have hhead : ¬ o.string.head? ≠ some '-' := by simp [Opt.string]
  rw [read, if_neg hhead, h.find_string ho]

theorem Lawful.string_ne (h : p.Lawful) {o : Opt V} (ho : o ∈ p.options) : o.string ≠ "--".toList := by
  intro heq
  exact (h.no_help o ho).2 (by simpa [Opt.string] using heq)

theorem Lawful.find_dest (h : p.Lawful) {o : Opt V} (ho : o ∈ p.options) : p.defaults o.dest = o.default := by
  have hsome : (p.options.find? fun o' => o'.dest = o.dest).isSome := by
    rw [List.find?_isSome]
    exact ⟨o, ho, by simp⟩
  obtain ⟨o', ho'⟩ := Option.isSome_iff_exists.1 hsome
  have hdest : o'.dest = o.dest := by simpa using List.find?_some ho'
  rw [defaults, ho', h.eq_of_dest (List.mem_of_find?_eq_some ho') ho hdest]
  rfl

theorem isArgument_iff {arg : ArgString} :
    p.isArgument arg = true ↔ arg ≠ "--".toList ∧ p.read arg = .argument := by
  unfold isArgument
  split
  · rename_i hread
    simp [hread]
  · rename_i hread
    exact iff_of_false Bool.false_ne_true fun h => hread h.2

/-- A string that does not begin with a dash is an argument. -/
theorem isArgument_of_head {arg : ArgString} (h : arg.head? ≠ some '-') : p.isArgument arg = true := by
  rw [isArgument_iff, read, if_pos h]
  refine ⟨?_, rfl⟩
  rintro rfl
  exact h rfl

/-- So is a negative number. -/
theorem isArgument_of_digits {digits : List Char} (hne : digits ≠ []) (hdigit : ∀ c ∈ digits, p.digit c = true)
    (hplain : ∀ c ∈ digits, c.isDigit = true) : p.isArgument ('-' :: digits) = true := by
  obtain ⟨d, ds, rfl⟩ := List.exists_cons_of_ne_nil hne
  have hd : d.isDigit = true := hplain d (List.mem_cons_self ..)
  have hdash : d ≠ '-' := by
    rintro rfl
    exact Bool.false_ne_true hd
  have hh : d ≠ 'h' := by
    rintro rfl
    exact Bool.false_ne_true hd
  have hequals : ('-' :: d :: ds).dropWhile (· ≠ '=') = [] := by
    rw [List.dropWhile_eq_nil_iff]
    rintro c hc
    rcases List.mem_cons.1 hc with rfl | hc
    · decide
    · refine decide_eq_true ?_
      rintro rfl
      exact Bool.false_ne_true (hplain _ hc)
  have hfind : (p.options.find? fun o => o.string = '-' :: d :: ds) = none := by
    rw [List.find?_eq_none]
    intro o _ ho
    simp only [Opt.string, decide_eq_true_eq, List.cons.injEq, true_and] at ho
    exact hdash ho.1.symm
  have hcandidates : p.candidates ('-' :: d :: ds) = [] := by
    have hlong : "--".toList.isPrefixOf ('-' :: d :: ds) = false := by
      simp [List.isPrefixOf, hdash.symm]
    have hshort : "-h".toList.isPrefixOf ('-' :: d :: ds) = false := by
      simp [List.isPrefixOf, hh.symm]
    simp only [candidates, hlong, hshort, Bool.false_eq_true, if_false]
  have hnegative : isNegativeNumber p.digit ('-' :: d :: ds) = true := by
    have hlast : ('-' :: d :: ds).getLast? ≠ some '\n' := by
      intro hlast
      rcases List.mem_cons.1 (List.mem_of_getLast? hlast) with heq | hmem
      · exact absurd heq (by decide)
      · exact Bool.false_ne_true (hplain _ hmem)
    have hdrop : (d :: ds).dropWhile p.digit = [] := List.dropWhile_eq_nil_iff.2 hdigit
    simp only [isNegativeNumber, if_neg hlast, List.drop_succ_cons, List.drop_zero, hdrop, List.isEmpty_cons,
      Bool.not_false]
  have hhelp : ¬ helpStrings.contains ('-' :: d :: ds) = true := by
    simp [helpStrings, hdash, hh]
  have hread : p.read ('-' :: d :: ds) = .argument := by
    simp only [read, List.head?_cons, ne_eq, not_true_eq_false, if_false, hfind, if_neg hhelp, hequals,
      List.tail?_nil, readOther, hcandidates, hnegative, Bool.true_or, if_true]
    split <;> rfl
  rw [isArgument_iff]
  refine ⟨?_, hread⟩
  exact fun heq => hdash (List.cons.inj (List.cons.inj heq).2).1

/-- An option with the argument after it -/
theorem Lawful.consume_string (h : p.Lawful) {o : Opt V} (ho : o ∈ p.options)
    {convert : ArgString → Option V} (haction : o.action = .store convert) (value : ArgString)
    (rest : List ArgString) (s : State V) :
    p.consume (o.string :: value :: rest) s =
      if p.isArgument value then
        match convert value with
        | some v => p.consume rest (s.store o v)
        | none => .error (.invalidValue o.string value)
      else .error (.expectedOneArgument o.string) := by
  rw [consume.eq_def]
  simp only [if_neg (h.string_ne ho), h.read_string ho, haction]

/-! ### Options with their values -/

/-- `--key value …` -/
def cliArgs (items : List (Σ _ : ArgString, ArgString)) : List ArgString :=
  items.flatMap fun item => ['-' :: '-' :: item.1, item.2]

/-- An option of this name takes a value. -/
def Stores (p : Parser V) (key : ArgString) : Prop :=
  ∃ o ∈ p.options, o.name = key ∧ ∃ convert, o.action = .store convert

def Accepts (p : Parser V) (item : Σ _ : ArgString, ArgString) : Prop :=
  p.isArgument item.2 = true ∧ ∃ o ∈ p.options, o.name = item.1 ∧ ∃ v, o.Converts item.2 v

/-- What a list of options and values does to the state -/
structure Assigned (p : Parser V) (items : List (Σ _ : ArgString, ArgString)) (s s' : State V) : Prop where
  extras : s'.extras = s.extras
  seen : ∀ o ∈ p.options, o.string ∈ s'.seen ↔ o.string ∈ s.seen ∨ o.name ∈ items.keys
  value : ∀ o ∈ p.options, ∀ arg, ⟨o.name, arg⟩ ∈ items → ∃ v, s'.values o.dest = some v ∧ o.Converts arg v
  other : ∀ o ∈ p.options, o.name ∉ items.keys → s'.values o.dest = s.values o.dest

theorem Lawful.consume_cliArgs_cons (h : p.Lawful) {o : Opt V} (ho : o ∈ p.options)
    {convert : ArgString → Option V} (haction : o.action = .store convert) (value : ArgString)
    (items : List (Σ _ : ArgString, ArgString)) (s s' : State V) :
    p.consume (cliArgs (⟨o.name, value⟩ :: items)) s = .ok s' ↔
      p.isArgument value = true ∧
        ∃ v, convert value = some v ∧ p.consume (cliArgs items) (s.store o v) = .ok s' := by
  show p.consume (o.string :: value :: cliArgs items) s = .ok s' ↔ _
  rw [h.consume_string ho haction]
  cases p.isArgument value with
  | false => simp
  | true => cases convert value <;> simp

theorem Lawful.exists_consume_cliArgs_iff (h : p.Lawful) {items : List (Σ _ : ArgString, ArgString)}
    (hstores : ∀ item ∈ items, p.Stores item.1) (s : State V) :
    (∃ s', p.consume (cliArgs items) s = .ok s') ↔ ∀ item ∈ items, p.Accepts item := by
  induction items generalizing s with
  | nil => simp [cliArgs, consume]
  | cons item items ih =>
    obtain ⟨key, value⟩ := item
    obtain ⟨⟨o, ho, rfl, convert, haction⟩, hitems⟩ := List.forall_mem_cons.1 hstores
    have haccepts : p.Accepts ⟨o.name, value⟩ ↔ p.isArgument value = true ∧ ∃ v, convert value = some v := by
      refine and_congr_right fun _ => ⟨?_, ?_⟩
      · rintro ⟨o', ho', hname, v, convert', haction', hv⟩
        rw [h.eq_of_name ho' ho hname, haction] at haction'
        cases haction'
        exact ⟨v, hv⟩
      · rintro ⟨v, hv⟩
        exact ⟨o, ho, rfl, v, convert, haction, hv⟩
    simp only [h.consume_cliArgs_cons ho haction, List.forall_mem_cons, haccepts]
    constructor
    · rintro ⟨s', hvalue, v, hv, hrun⟩
      exact ⟨⟨hvalue, v, hv⟩, (ih hitems _).1 ⟨s', hrun⟩⟩
    · rintro ⟨⟨hvalue, v, hv⟩, hrest⟩
      obtain ⟨s', hrun⟩ := (ih hitems (s.store o v)).2 hrest
      exact ⟨s', hvalue, v, hv, hrun⟩

theorem Lawful.assigned_of_consume (h : p.Lawful) {items : List (Σ _ : ArgString, ArgString)}
    (hnodup : items.NodupKeys) (hstores : ∀ item ∈ items, p.Stores item.1) {s s' : State V}
    (hrun : p.consume (cliArgs items) s = .ok s') : p.Assigned items s s' := by
  induction items generalizing s with
  | nil =>
    simp only [cliArgs, List.flatMap_nil, consume, Except.ok.injEq] at hrun
    subst hrun
    exact ⟨rfl, fun o _ => by simp, fun o _ arg harg => (List.not_mem_nil harg).elim, fun o _ _ => rfl⟩
  | cons item items ih =>
    obtain ⟨key, value⟩ := item
    obtain ⟨⟨o, ho, rfl, convert, haction⟩, hitems⟩ := List.forall_mem_cons.1 hstores
    obtain ⟨hnew, hnodup'⟩ := List.nodupKeys_cons.1 hnodup
    obtain ⟨-, v, hv, hrun⟩ := (h.consume_cliArgs_cons ho haction value items s s').1 hrun
    have hrest := ih hnodup' hitems hrun
    have hkeys : ∀ o' : Opt V, o'.name ∈ List.keys (⟨o.name, value⟩ :: items) ↔
        o'.name = o.name ∨ o'.name ∈ items.keys := fun o' => by rw [List.keys_cons, List.mem_cons]
    refine ⟨hrest.extras, fun o' ho' => ?_, fun o' ho' arg harg => ?_, fun o' ho' hother => ?_⟩
    · rw [hrest.seen o' ho', hkeys o']
      show o'.string ∈ o.string :: s.seen ∨ _ ↔ _
      rw [List.mem_cons, string_eq_iff]
      tauto
    · rcases List.mem_cons.1 harg with heq | hmem
      · obtain ⟨hname, rfl⟩ : o'.name = o.name ∧ arg = value := by simpa using heq
        obtain rfl := h.eq_of_name ho' ho hname
        refine ⟨v, ?_, convert, haction, hv⟩
        rw [hrest.other o' ho' hnew]
        exact Function.update_self ..
      · exact hrest.value o' ho' arg hmem
    · rw [hkeys o', not_or] at hother
      rw [hrest.other o' ho' hother.2]
      exact Function.update_of_ne (fun hdest => hother.1 (by rw [h.eq_of_dest ho' ho hdest])) ..

private theorem exists_of_parseArgs {argv : List ArgString} {values : Namespace V}
    (h : p.parseArgs argv = .ok values) :
    ∃ s, p.consume argv ⟨p.defaults, [], []⟩ = .ok s ∧ s.values = values ∧ p.missing s = [] := by
  cases hrun : p.consume argv ⟨p.defaults, [], []⟩ with
  | error e =>
    rw [parseArgs, hrun] at h
    cases h
  | ok s =>
    rw [parseArgs, hrun] at h
    change (if p.missing s ≠ [] then _ else if s.extras ≠ [] then _ else _) = _ at h
    by_cases hmissing : p.missing s = []
    · rw [if_neg (not_not.2 hmissing)] at h
      split at h
      · cases h
      · exact ⟨s, rfl, Except.ok.inj h, hmissing⟩
    · rw [if_pos hmissing] at h
      cases h

/-- The list is parsed exactly if every value is accepted and no required option is missing. -/
theorem Lawful.exists_parseArgs_cliArgs_iff (h : p.Lawful) {items : List (Σ _ : ArgString, ArgString)}
    (hnodup : items.NodupKeys) (hstores : ∀ item ∈ items, p.Stores item.1)
    (hrequired : ∀ o ∈ p.options, o.required = true → o.name ∈ items.keys) :
    (∃ values, p.parseArgs (cliArgs items) = .ok values) ↔ ∀ item ∈ items, p.Accepts item := by
  rw [← h.exists_consume_cliArgs_iff hstores ⟨p.defaults, [], []⟩]
  constructor
  · rintro ⟨values, hparse⟩
    obtain ⟨s, hrun, -⟩ := exists_of_parseArgs hparse
    exact ⟨s, hrun⟩
  · rintro ⟨s, hrun⟩
    have hassigned := h.assigned_of_consume hnodup hstores hrun
    have hmissing : p.missing s = [] := by
      rw [missing, List.filter_eq_nil_iff]
      intro o ho
      have hseen : o.required = true → o.string ∈ s.seen := fun hreq =>
        (hassigned.seen o ho).2 (.inr (hrequired o ho hreq))
      simpa using hseen
    have hextras : s.extras = [] := hassigned.extras
    refine ⟨s.values, ?_⟩
    rw [parseArgs, hrun]
    show (if p.missing s ≠ [] then _ else if s.extras ≠ [] then _ else _) = _
    rw [hmissing, hextras]
    rfl

/-- Each option has the value of its item, or its default. -/
theorem Lawful.parseArgs_cliArgs (h : p.Lawful) {items : List (Σ _ : ArgString, ArgString)}
    (hnodup : items.NodupKeys) (hstores : ∀ item ∈ items, p.Stores item.1) {values : Namespace V}
    (hparse : p.parseArgs (cliArgs items) = .ok values) :
    ∀ o ∈ p.options, (o.name ∉ items.keys ∧ values o.dest = o.default) ∨
      ∃ arg v, ⟨o.name, arg⟩ ∈ items ∧ o.Converts arg v ∧ values o.dest = some v := by
  obtain ⟨s, hrun, rfl, -⟩ := exists_of_parseArgs hparse
  have hassigned := h.assigned_of_consume hnodup hstores hrun
  intro o ho
  by_cases hkey : o.name ∈ items.keys
  · obtain ⟨arg, harg⟩ := List.exists_of_mem_keys hkey
    obtain ⟨v, hvalue, hconverts⟩ := hassigned.value o ho arg harg
    exact .inr ⟨arg, v, harg, hconverts, hvalue⟩
  · exact .inl ⟨hkey, (hassigned.other o ho hkey).trans (h.find_dest ho)⟩

/-! ### Any argument list -/

/-- The values of the options that have been seen come from their actions, and the others are defaults. -/
def Yielded (p : Parser V) (s : State V) : Prop :=
  ∀ o ∈ p.options, (o.string ∉ s.seen ∧ s.values o.dest = o.default) ∨
    ∃ v, s.values o.dest = some v ∧ o.Yields v

theorem Lawful.yielded_store (h : p.Lawful) {s : State V} (hs : p.Yielded s) {o : Opt V} (ho : o ∈ p.options)
    {v : V} (hv : o.Yields v) : p.Yielded (s.store o v) := by
  intro o' ho'
  by_cases hdest : o'.dest = o.dest
  · obtain rfl := h.eq_of_dest ho' ho hdest
    exact .inr ⟨v, Function.update_self .., hv⟩
  · have hvalue : (s.store o v).values o'.dest = s.values o'.dest := Function.update_of_ne hdest ..
    have hseen : o'.string ∈ (s.store o v).seen ↔ o'.string ∈ s.seen := by
      show o'.string ∈ o.string :: s.seen ↔ _
      rw [List.mem_cons, or_iff_right]
      exact fun hstring => hdest (by rw [h.eq_of_name ho' ho (string_eq_iff.1 hstring)])
    rw [hvalue, hseen]
    exact hs o' ho'

theorem mem_of_mem_candidates {arg : ArgString} {o : Opt V} {explicit : Option ArgString}
    (h : .option o explicit ∈ p.candidates arg) : o ∈ p.options := by
  unfold candidates at h
  split at h
  · rcases List.mem_append.1 h with h | h
    · obtain ⟨o', ho', heq⟩ := List.mem_map.1 h
      cases heq
      exact (List.mem_filter.1 ho').1
    · split at h
      · have heq := List.mem_singleton.1 h
        cases hexplicit : (arg.dropWhile (· ≠ '=')).tail? with
        | none =>
          rw [hexplicit] at heq
          cases heq
        | some value =>
          rw [hexplicit] at heq
          cases heq
      · exact (List.not_mem_nil h).elim
  · split at h
    · split at h <;> simp at h
    · exact (List.not_mem_nil h).elim

theorem mem_of_read {arg : ArgString} {o : Opt V} {explicit : Option ArgString}
    (h : p.read arg = .option o explicit) : o ∈ p.options := by
  have hother : ∀ {arg}, p.readOther arg = .option o explicit → o ∈ p.options := by
    intro arg h
    unfold readOther at h
    split at h
    · rename_i hcandidates
      exact mem_of_mem_candidates (by rw [hcandidates, h]; exact List.mem_singleton_self _)
    · cases h
    · split at h <;> cases h
  unfold read at h
  split at h
  · cases h
  · split at h
    · rename_i hfind
      cases h
      exact List.mem_of_find?_eq_some hfind
    · split at h
      · cases h
      · split at h
        · cases h
        · dsimp only at h
          split at h
          · rename_i hfind
            cases h
            exact List.mem_of_find?_eq_some hfind
          · split at h
            · cases h
            · exact hother h
          · exact hother h

theorem Lawful.yielded_consume (h : p.Lawful) {argv : List ArgString} {s s' : State V} (hs : p.Yielded s)
    (hrun : p.consume argv s = .ok s') : p.Yielded s' := by
  fun_induction consume p argv s with
  | case1 s =>
    cases hrun
    exact hs
  | case2 s rest =>
    cases hrun
    exact hs
  | case3 s arg rest hne hread ih => exact ih hs hrun
  | case4 s arg rest hne hread ih => exact ih hs hrun
  | case8 s arg rest hne o value haction hread ih =>
    exact ih (h.yielded_store hs (mem_of_read hread) (.inl haction)) hrun
  | case10 s arg rest hne o convert explicit haction value hvalue hread ih =>
    exact ih (h.yielded_store hs (mem_of_read hread) (.inr ⟨explicit, convert, haction, hvalue⟩)) hrun
  | case13 s arg hne o convert haction arg' rest' harg' value hvalue hread ih =>
    exact ih (h.yielded_store hs (mem_of_read hread) (.inr ⟨arg', convert, haction, hvalue⟩)) hrun
  | _ => cases hrun

theorem Lawful.parseArgs_yields (h : p.Lawful) {argv : List ArgString} {values : Namespace V}
    (hparse : p.parseArgs argv = .ok values) :
    ∀ o ∈ p.options, (o.required = false ∧ values o.dest = o.default) ∨
      ∃ v, values o.dest = some v ∧ o.Yields v := by
  obtain ⟨s, hrun, rfl, hmissing⟩ := exists_of_parseArgs hparse
  have hinit : p.Yielded ⟨p.defaults, [], []⟩ := fun o ho => .inl ⟨List.not_mem_nil, h.find_dest ho⟩
  intro o ho
  rcases h.yielded_consume hinit hrun o ho with ⟨hseen, hdefault⟩ | hyields
  · refine .inl ⟨?_, hdefault⟩
    have hnot : o ∉ p.missing s := by
      rw [hmissing]
      exact List.not_mem_nil
    simpa [missing, ho, hseen] using hnot
  · exact .inr hyields

end Parser
end ArgParse
