import Mathlib.Data.List.TakeWhile
import VectorIndex.CommandLine.Arguments
import VectorIndex.Proofs.Keyed

/-!
# What a command line gives

How the words of a command line are understood, stated without reading them from left to
right: which words name an option, which options a segment gives with which values, and
what these ask for.

* `OptionName.NamedBy`: the words that name an option.
* `Gives`: a segment, option by option. `segment_eq_some_iff` says that segments are read
  as they are given.
* `Options.Reads`, `Command.Reads`: what given options ask for.
* `Invocation.parse_eq_some_iff`: which command lines are understood, and how. Of the
  options for the whole program those behind the command come before those in front of it.
-/

namespace VectorIndex.CommandLine

/-! ## Words that name an option -/

/-- The word names the option, with a value behind the name or without one. The name
stands behind two dashes and a letter behind one. Behind a letter the value needs no
equals sign. -/
inductive OptionName.NamedBy (o : OptionName) : String → Option String → Prop where
  | name : NamedBy o ("--" ++ o.long) none
  | nameValue {value : String} : NamedBy o ("--" ++ o.long ++ "=" ++ value) (some value)
  | letter {c : Char} : o.short = some c → NamedBy o (String.ofList ['-', c]) none
  | letterEquals {c : Char} {value : String} : o.short = some c →
      NamedBy o (String.ofList ['-', c, '='] ++ value) (some value)
  | letterValue {c : Char} {value : String} : o.short = some c → value ≠ "" →
      value.toList.head? ≠ some '=' → NamedBy o (String.ofList ['-', c] ++ value) (some value)

/-- The options can be told from each other, and their names from values. -/
structure Distinguished (known : List OptionName) : Prop where
  long : (known.map OptionName.long).Nodup
  short : ∀ o ∈ known, ∀ p ∈ known, o.short ≠ none → o.short = p.short → o = p
  plain : ∀ o ∈ known, o.long ≠ "" ∧ '=' ∉ o.long.toList ∧ o.short ≠ some '-'

theorem splitAtEquals_of_notMem {text : List Char} (h : '=' ∉ text) :
    splitAtEquals text = (text, none) := by
  have hall : ∀ c ∈ text, (c != '=') = true := by
    intro c hc
    exact bne_iff_ne.2 fun heq => h (heq.subst hc)
  simp [splitAtEquals, List.takeWhile_eq_self_iff.2 hall, List.dropWhile_eq_nil_iff.2 hall]

theorem splitAtEquals_append {name : List Char} (h : '=' ∉ name) (value : List Char) :
    splitAtEquals (name ++ '=' :: value) = (name, some value) := by
  have hall : ∀ c ∈ name, (c != '=') = true := by
    intro c hc
    exact bne_iff_ne.2 fun heq => h (heq.subst hc)
  simp [splitAtEquals, List.takeWhile_append_of_pos hall, List.dropWhile_append_of_pos hall]

/-- The words: the end of the options, two dashes or one with more behind them, and those
that are no options. -/
theorem word_cases (word : String) :
    word = "--" ∨ (∃ text, text ≠ [] ∧ word.toList = '-' :: '-' :: text) ∨
      (∃ c text, c ≠ '-' ∧ word.toList = '-' :: c :: text) ∨ looksLikeOption word = false := by
  cases hword : word.toList with
  | nil => exact .inr (.inr (.inr (by simp [looksLikeOption, hword])))
  | cons d rest =>
    by_cases hd : d = '-'
    · subst hd
      cases rest with
      | nil => exact .inr (.inr (.inr (by simp [looksLikeOption, hword])))
      | cons c text =>
        by_cases hc : c = '-'
        · subst hc
          cases text with
          | nil => exact .inl (String.toList_injective hword)
          | cons e text => exact .inr (.inl ⟨_, List.cons_ne_nil e text, rfl⟩)
        · exact .inr (.inr (.inl ⟨c, text, hc, rfl⟩))
    · refine .inr (.inr (.inr ?_))
      unfold looksLikeOption
      rw [hword]
      split
      · next h => exact absurd (List.cons.inj h).1 hd
      · rfl

theorem token_of_word {known : List OptionName} {word : String}
    (h : looksLikeOption word = false) : token known word = .word word := by
  unfold looksLikeOption at h
  unfold token
  split
  · next hword => simp [hword] at h
  · next hword => simp [hword] at h
  · next hword => simp [hword] at h
  · rfl

/-- A word that starts with two dashes and goes on. -/
theorem token_of_dashes {known : List OptionName} {word : String} {text : List Char}
    (hword : word.toList = '-' :: '-' :: text) (htext : text ≠ []) :
    token known word =
      match known.find? (·.long == String.ofList (splitAtEquals text).1) with
      | some o => .option o ((splitAtEquals text).2.map String.ofList)
      | none => .unknown := by
  unfold token
  rw [hword]
  cases text with
  | nil => exact absurd rfl htext
  | cons c text => rfl

/-- A word that starts with one dash and goes on. -/
theorem token_of_dash {known : List OptionName} {word : String} {c : Char} {text : List Char}
    (hword : word.toList = '-' :: c :: text) (hc : c ≠ '-') :
    token known word =
      match known.find? (·.short == some c) with
      | some o => .option o (attachedValue text)
      | none => .unknown := by
  unfold token
  rw [hword]
  split
  · next h => cases h; exact absurd rfl hc
  · next h => cases h; exact absurd rfl hc
  · next h => cases h; rfl
  · next h => exact absurd rfl (h _ _)

theorem attachedValue_toList {value : String} (hvalue : value ≠ "")
    (hhead : value.toList.head? ≠ some '=') : attachedValue value.toList = some value := by
  have hne : value.toList ≠ [] := fun heq => hvalue (String.toList_eq_nil_iff.1 heq)
  conv_rhs => rw [← String.ofList_toList (s := value)]
  unfold attachedValue
  split
  · next h => exact absurd h hne
  · next h => exact absurd (by rw [h]; rfl) hhead
  · rfl

/-- A dash and the letter of an option name it, with what stands behind the letter. -/
theorem OptionName.namedBy_attachedValue {o : OptionName} {word : String} {c : Char}
    {text : List Char} (hshort : o.short = some c) (hword : word.toList = '-' :: c :: text) :
    o.NamedBy word (attachedValue text) := by
  cases text with
  | nil =>
    obtain rfl : word = String.ofList ['-', c] := String.toList_injective (by simp [hword])
    exact .letter hshort
  | cons d rest =>
    by_cases hd : d = '='
    · subst hd
      obtain rfl : word = String.ofList ['-', c, '='] ++ String.ofList rest :=
        String.toList_injective (by simp [hword])
      exact .letterEquals hshort
    · obtain rfl : word = String.ofList ['-', c] ++ String.ofList (d :: rest) :=
        String.toList_injective (by simp [hword])
      have hvalue : String.ofList (d :: rest) ≠ "" := by simp
      have hhead : (String.ofList (d :: rest)).toList.head? ≠ some '=' := by simp [hd]
      have hattached := attachedValue_toList hvalue hhead
      rw [String.toList_ofList] at hattached
      rw [hattached]
      exact .letterValue hshort hvalue hhead

section

variable {known : List OptionName} (hknown : Distinguished known) {o : OptionName}
include hknown

theorem Distinguished.find?_long {name : String} :
    known.find? (·.long == name) = some o ↔ o ∈ known ∧ o.long = name :=
  find?_eq_some_iff_mem hknown.long

theorem Distinguished.find?_short {c : Char} :
    known.find? (·.short == some c) = some o ↔ o ∈ known ∧ o.short = some c := by
  constructor
  · intro h
    exact ⟨List.mem_of_find?_eq_some h, by simpa using List.find?_some h⟩
  · intro h
    obtain ⟨hmem, hshort⟩ := h
    obtain ⟨p, hp⟩ : ∃ p, known.find? (·.short == some c) = some p :=
      Option.isSome_iff_exists.1 (List.find?_isSome.2 ⟨o, hmem, by simpa using hshort⟩)
    have hpshort : p.short = some c := by simpa using List.find?_some hp
    have hsame : o = p := hknown.short o hmem p (List.mem_of_find?_eq_some hp) (by simp [hshort])
      (hshort.trans hpshort.symm)
    rw [hp, hsame]

theorem Distinguished.token_of_letter (ho : o ∈ known) {word : String} {c : Char}
    (hshort : o.short = some c) (text : List Char) (hword : word.toList = '-' :: c :: text) :
    token known word = .option o (attachedValue text) := by
  have hdash : c ≠ '-' := fun hc => (hknown.plain o ho).2.2 (hc ▸ hshort)
  rw [token_of_dash hword hdash, hknown.find?_short.2 ⟨ho, hshort⟩]

/-- A word that names an option is understood. -/
theorem Distinguished.token_of_namedBy (ho : o ∈ known) {word : String} {value : Option String}
    (h : o.NamedBy word value) : token known word = .option o value := by
  obtain ⟨hlong, hequals, -⟩ := hknown.plain o ho
  have hne : o.long.toList ≠ [] := fun heq => hlong (String.toList_eq_nil_iff.1 heq)
  have hfind : known.find? (·.long == o.long) = some o := hknown.find?_long.2 ⟨ho, rfl⟩
  cases h with
  | name =>
    have hword : ("--" ++ o.long).toList = '-' :: '-' :: o.long.toList := by simp
    rw [token_of_dashes hword hne, splitAtEquals_of_notMem hequals]
    simp [hfind]
  | @nameValue value =>
    have hword : ("--" ++ o.long ++ "=" ++ value).toList =
        '-' :: '-' :: (o.long.toList ++ '=' :: value.toList) := by simp
    rw [token_of_dashes hword (by simp), splitAtEquals_append hequals]
    simp [hfind]
  | letter hshort => exact hknown.token_of_letter ho hshort [] (by simp)
  | @letterEquals _ value hshort =>
    rw [hknown.token_of_letter ho hshort ('=' :: value.toList) (by simp)]
    simp [attachedValue]
  | @letterValue _ value hshort hvalue hhead =>
    rw [hknown.token_of_letter ho hshort value.toList (by simp),
      attachedValue_toList hvalue hhead]

/-- Only words that name an option are understood as one. -/
theorem Distinguished.namedBy_of_token {word : String} {value : Option String}
    (h : token known word = .option o value) : o ∈ known ∧ o.NamedBy word value := by
  rcases word_cases word with rfl | ⟨text, htext, hword⟩ | ⟨c, text, hc, hword⟩ | hword
  · cases h
  · rw [token_of_dashes hword htext] at h
    split at h
    · next p hp =>
      obtain ⟨hmem, hlong⟩ := hknown.find?_long.1 hp
      cases h
      refine ⟨hmem, ?_⟩
      by_cases hequals : '=' ∈ text
      · obtain ⟨name, rest, rfl, hname⟩ := List.eq_append_cons_of_mem hequals
        rw [splitAtEquals_append hname] at hlong ⊢
        obtain rfl : word = "--" ++ o.long ++ "=" ++ String.ofList rest :=
          String.toList_injective (by simp [hword, hlong])
        exact .nameValue
      · rw [splitAtEquals_of_notMem hequals] at hlong ⊢
        obtain rfl : word = "--" ++ o.long := String.toList_injective (by simp [hword, hlong])
        exact .name
    · cases h
  · rw [token_of_dash hword hc] at h
    split at h
    · next p hp =>
      obtain ⟨hmem, hshort⟩ := hknown.find?_short.1 hp
      cases h
      exact ⟨hmem, OptionName.namedBy_attachedValue hshort hword⟩
    · cases h
  · rw [token_of_word hword] at h
    cases h

end

theorem eq_of_token_optionsEnd {known : List OptionName} {word : String}
    (h : token known word = .optionsEnd) : word = "--" := by
  rcases word_cases word with rfl | ⟨text, htext, hword⟩ | ⟨c, text, hc, hword⟩ | hword
  · rfl
  · rw [token_of_dashes hword htext] at h
    split at h <;> cases h
  · rw [token_of_dash hword hc] at h
    split at h <;> cases h
  · rw [token_of_word hword] at h
    cases h

theorem eq_of_token_word {known : List OptionName} {word w : String}
    (h : token known word = .word w) : w = word ∧ looksLikeOption word = false := by
  rcases word_cases word with rfl | ⟨text, htext, hword⟩ | ⟨c, text, hc, hword⟩ | hword
  · cases h
  · rw [token_of_dashes hword htext] at h
    split at h <;> cases h
  · rw [token_of_dash hword hc] at h
    split at h <;> cases h
  · rw [token_of_word hword] at h
    cases h
    exact ⟨rfl, hword⟩

/-! ## Segments -/

/-- The words of a segment give these options with their values, and end with these words:
the first word that is no option and what stands behind it, or nothing. -/
inductive Gives (known : List OptionName) : List String → Segment → Prop where
  | nothing : Gives known [] ⟨[], none⟩
  | optionsEnd : Gives known ["--"] ⟨[], none⟩
  | word {w rest} : looksLikeOption w = false → Gives known (w :: rest) ⟨[], some (w, rest)⟩
  | value {o word value rest s} : o ∈ known → o.takesValue = true →
      o.NamedBy word (some value) → Gives known rest s →
      Gives known (word :: rest) (s.push o.long value)
  | valueApart {o word value rest s} : o ∈ known → o.takesValue = true →
      o.NamedBy word none → looksLikeOption value = false → Gives known rest s →
      Gives known (word :: value :: rest) (s.push o.long value)
  | flag {o word rest s} : o ∈ known → o.takesValue = false → o.NamedBy word none →
      Gives known rest s → Gives known (word :: rest) (s.push o.long "")

/-- A segment is read as what its words give. -/
theorem segment_eq_some_iff {known : List OptionName} (hknown : Distinguished known)
    {arguments : List String} {s : Segment} :
    segment known arguments = some s ↔ Gives known arguments s := by
  constructor
  · intro h
    induction arguments using segment.induct known generalizing s with
    | case1 =>
      cases h
      exact .nothing
    | case2 word rest w htoken =>
      obtain ⟨rfl, hword⟩ := eq_of_token_word htoken
      simp only [segment, htoken] at h
      cases h
      exact .word hword
    | case3 word rest htoken =>
      simp only [segment, htoken] at h
      cases h
    | case4 word rest htoken hrest =>
      cases eq_of_token_optionsEnd htoken
      cases List.isEmpty_iff.1 hrest
      cases h
      exact .optionsEnd
    | case5 word rest htoken hrest =>
      simp only [segment, htoken, if_neg hrest] at h
      cases h
    | case6 word rest o value htoken htakes ih =>
      simp only [segment, htoken, htakes, if_true, Option.map_eq_some_iff] at h
      obtain ⟨s, hs, rfl⟩ := h
      obtain ⟨ho, hnamed⟩ := hknown.namedBy_of_token htoken
      exact .value ho htakes hnamed (ih hs)
    | case7 word rest o value htoken htakes =>
      simp only [segment, htoken, if_neg htakes] at h
      cases h
    | case8 word o htoken htakes =>
      simp only [segment, htoken, htakes, if_true] at h
      cases h
    | case9 word o htoken htakes value rest hvalue =>
      simp only [segment, htoken, htakes, hvalue, if_true] at h
      cases h
    | case10 word o htoken htakes value rest hvalue ih =>
      simp only [segment, htoken, htakes, if_true, if_neg hvalue, Option.map_eq_some_iff] at h
      obtain ⟨s, hs, rfl⟩ := h
      obtain ⟨ho, hnamed⟩ := hknown.namedBy_of_token htoken
      exact .valueApart ho htakes hnamed (Bool.not_eq_true _ ▸ hvalue) (ih hs)
    | case11 word rest o htoken htakes ih =>
      simp only [segment, htoken, if_neg htakes, Option.map_eq_some_iff] at h
      obtain ⟨s, hs, rfl⟩ := h
      obtain ⟨ho, hnamed⟩ := hknown.namedBy_of_token htoken
      exact .flag ho (Bool.not_eq_true _ ▸ htakes) hnamed (ih hs)
  · intro h
    induction h with
    | nothing => rfl
    | optionsEnd => rfl
    | word hw => rw [segment, token_of_word hw]
    | value ho htakes hnamed _ ih =>
      rw [segment, hknown.token_of_namedBy ho hnamed]
      simp [htakes, ih]
    | valueApart ho htakes hnamed hvalue _ ih =>
      rw [segment, hknown.token_of_namedBy ho hnamed]
      simp [htakes, hvalue, ih]
    | flag ho htakes hnamed _ ih =>
      rw [segment, hknown.token_of_namedBy ho hnamed]
      simp [htakes, ih]

theorem distinguished_programOptions : Distinguished programOptions where
  long := by decide
  short := by decide
  plain := by decide

theorem distinguished_optionsOf (name : String) : Distinguished (optionsOf name) := by
  unfold optionsOf
  split
  · exact ⟨by decide, by decide, by decide⟩
  · exact distinguished_programOptions

/-! ## What given options ask for -/

/-- The options for the whole program that are given: the first value that is given for
each, where a path is not empty and the numbers are integers of 64 bits. -/
structure Options.Reads (given : List (String × String)) (o : Options) : Prop where
  defaultsPath : given.lookup "settings" = o.defaultsPath
  path_ne_empty : o.defaultsPath ≠ some ""
  m : (given.lookup "default-m").map Decimal.int64? = o.overrides.m.map some
  efConstruction : (given.lookup "default-ef-construction").map Decimal.int64? =
    o.overrides.efConstruction.map some
  efSearch : (given.lookup "default-ef-search").map Decimal.int64? =
    o.overrides.efSearch.map some
  logLevel : given.lookup "log-level" = o.logLevel

/-- The command that is asked for by its name and by the options behind it. -/
inductive Command.Reads (given : List (String × String)) : String → Command → Prop where
  | compile {path} : given.lookup "method" = some path → path ≠ "" →
      Command.Reads given "compile"
        (.compile path (given.lookup "space") (given.lookup "as-map").isSome)
  | describe : Command.Reads given "describe" .describe

theorem Segment.path?_eq_some_iff {s : Segment} {name : String} {path : Option String} :
    s.path? name = some path ↔ s.given.lookup name = path ∧ path ≠ some "" := by
  unfold Segment.path? Segment.value?
  cases s.given.lookup name with
  | none =>
    cases path <;> simp
  | some value =>
    show (if value.isEmpty then none else some (some value)) = some path ↔ _
    constructor
    · intro h
      split at h
      · cases h
      · next hvalue =>
        cases h
        exact ⟨rfl, fun heq => hvalue (String.isEmpty_iff.2 (Option.some.inj heq))⟩
    · intro h
      obtain ⟨rfl, hvalue⟩ := h
      exact if_neg fun hempty => hvalue (congrArg some (String.isEmpty_iff.1 hempty))

theorem Segment.integer?_eq_some_iff {s : Segment} {name : String} {n : Option Int64} :
    s.integer? name = some n ↔ (s.given.lookup name).map Decimal.int64? = n.map some := by
  unfold Segment.integer? Segment.value?
  cases s.given.lookup name with
  | none => cases n <;> simp
  | some text => cases Decimal.int64? text <;> cases n <;> simp

theorem Segment.options?_eq_some_iff {s : Segment} {o : Options} :
    s.options? = some o ↔ o.Reads s.given := by
  simp only [Segment.options?, Option.bind_eq_bind, Option.bind_eq_some_iff,
    Segment.path?_eq_some_iff, Segment.integer?_eq_some_iff]
  constructor
  · intro h
    obtain ⟨path, ⟨hpath, hne⟩, m, hm, efConstruction, hconstruction, efSearch, hsearch, heq⟩ := h
    cases heq
    exact ⟨hpath, hne, hm, hconstruction, hsearch, rfl⟩
  · intro h
    refine ⟨_, ⟨h.defaultsPath, h.path_ne_empty⟩, _, h.m, _, h.efConstruction, _, h.efSearch, ?_⟩
    rw [Segment.value?, h.logLevel]
    rfl

theorem Options.Reads.unique {given : List (String × String)} {o o' : Options}
    (h : o.Reads given) (h' : o'.Reads given) : o = o' := by
  have hs : Segment.options? ⟨given, none⟩ = some o := Segment.options?_eq_some_iff.2 h
  have hs' : Segment.options? ⟨given, none⟩ = some o' := Segment.options?_eq_some_iff.2 h'
  exact Option.some.inj (hs.symm.trans hs')

/-- Where no option for the whole program is given, none is asked for. -/
theorem Options.reads_none {given : List (String × String)}
    (h : ∀ o ∈ programOptions, o.long ∉ given.map Prod.fst) :
    Options.Reads given ⟨none, ⟨none, none, none⟩, none⟩ := by
  have hnone : ∀ o ∈ programOptions, given.lookup o.long = none :=
    fun o ho => lookup_eq_none_iff_not_mem_keys.2 (h o ho)
  simp only [programOptions, List.forall_mem_cons] at hnone
  obtain ⟨hpath, hm, hconstruction, hsearch, hlevel, -⟩ := hnone
  exact ⟨hpath, nofun, congrArg _ hm, congrArg _ hconstruction, congrArg _ hsearch, hlevel⟩

/-- The options behind the command come before those in front of it. -/
theorem Options.Reads.orElse {front behind : List (String × String)} {outer inner : Options}
    (houter : outer.Reads front) (hinner : inner.Reads behind) :
    (inner.orElse outer).Reads (behind ++ front) := by
  have hnumber : ∀ name (a b : Option Int64),
      (behind.lookup name).map Decimal.int64? = a.map some →
      (front.lookup name).map Decimal.int64? = b.map some →
      ((behind ++ front).lookup name).map Decimal.int64? = (a.or b).map some := by
    intro name a b ha hb
    rw [List.lookup_append, Option.map_or, ha, hb, Option.map_or]
  refine ⟨?_, ?_, hnumber _ _ _ hinner.m houter.m,
    hnumber _ _ _ hinner.efConstruction houter.efConstruction,
    hnumber _ _ _ hinner.efSearch houter.efSearch, ?_⟩
  · rw [List.lookup_append, hinner.defaultsPath, houter.defaultsPath]
    rfl
  · have hor : (inner.orElse outer).defaultsPath = inner.defaultsPath ∨
        (inner.orElse outer).defaultsPath = outer.defaultsPath := by
      unfold Options.orElse
      cases inner.defaultsPath <;> simp
    rcases hor with hor | hor <;> rw [hor]
    · exact hinner.path_ne_empty
    · exact houter.path_ne_empty
  · rw [List.lookup_append, hinner.logLevel, houter.logLevel]
    rfl

theorem Segment.command?_eq_some_iff {s : Segment} {name : String} {c : Command} :
    s.command? name = some c ↔ s.next = none ∧ c.Reads s.given name := by
  unfold Segment.command?
  constructor
  · intro h
    split at h
    · cases h
    next hnext =>
    refine ⟨by simpa using hnext, ?_⟩
    split at h
    · next hname =>
      obtain rfl := beq_iff_eq.1 hname
      simp only [Option.bind_eq_bind, Option.bind_eq_some_iff] at h
      obtain ⟨_, hpath, path, rfl, heq⟩ := h
      obtain ⟨hgiven, hne⟩ := Segment.path?_eq_some_iff.1 hpath
      cases heq
      exact .compile hgiven fun heq => hne (heq ▸ rfl)
    · split at h
      · next hname =>
        obtain rfl := beq_iff_eq.1 hname
        cases h
        exact .describe
      · cases h
  · intro h
    obtain ⟨hnext, hc⟩ := h
    rw [hnext]
    cases hc with
    | @compile path hgiven hne =>
      have hpath : s.path? "method" = some (some path) :=
        Segment.path?_eq_some_iff.2 ⟨hgiven, fun heq => hne (Option.some.inj heq)⟩
      simp [hpath, Segment.value?]
    | describe => rfl

/-! ## Command lines -/

/-- The options that are given stand once each, and their values can be used. -/
def Usable (given : List (String × String)) : Prop :=
  (given.map Prod.fst).Nodup ∧ ∃ o : Options, o.Reads given

theorem distinctSegment_eq_some_iff {known : List OptionName} (hknown : Distinguished known)
    {arguments : List String} {s : Segment} :
    distinctSegment known arguments = some s ↔
      Gives known arguments s ∧ (s.given.map Prod.fst).Nodup := by
  rw [← segment_eq_some_iff hknown]
  unfold distinctSegment
  simp only [Option.bind_eq_bind, Option.bind_eq_some_iff]
  constructor
  · intro h
    obtain ⟨t, ht, h⟩ := h
    split at h
    · next hdistinct =>
      cases h
      exact ⟨ht, by simpa [Segment.distinct] using hdistinct⟩
    · cases h
  · intro h
    obtain ⟨hs, hdistinct⟩ := h
    exact ⟨s, hs, by simp [Segment.distinct, hdistinct]⟩

/-- A command line is understood if it gives usable options, then the name of a command,
and behind that usable options again. Of the options for the whole program those behind
the command come before those in front of it. -/
theorem Invocation.parse_eq_some_iff {arguments : List String} {i : Invocation} :
    Invocation.parse arguments = some i ↔ ∃ front name rest behind,
      Gives programOptions arguments ⟨front, some (name, rest)⟩ ∧ Usable front ∧
      Gives (optionsOf name) rest ⟨behind, none⟩ ∧ Usable behind ∧
      i.options.Reads (behind ++ front) ∧ i.command.Reads behind name := by
  simp only [Invocation.parse, Option.bind_eq_bind, Option.bind_eq_some_iff,
    distinctSegment_eq_some_iff distinguished_programOptions,
    distinctSegment_eq_some_iff (distinguished_optionsOf _), Segment.options?_eq_some_iff,
    Segment.command?_eq_some_iff]
  constructor
  · intro h
    obtain ⟨⟨front, next⟩, ⟨hfront, hnodup⟩, outer, houter, ⟨name, rest⟩, rfl,
      ⟨behind, _⟩, ⟨hbehind, hnodup'⟩, inner, hinner, c, ⟨rfl, hc⟩, heq⟩ := h
    cases heq
    exact ⟨front, name, rest, behind, hfront, ⟨hnodup, outer, houter⟩, hbehind,
      ⟨hnodup', inner, hinner⟩, houter.orElse hinner, hc⟩
  · intro h
    obtain ⟨front, name, rest, behind, hfront, ⟨hnodup, outer, houter⟩, hbehind,
      ⟨hnodup', inner, hinner⟩, hoptions, hc⟩ := h
    refine ⟨_, ⟨hfront, hnodup⟩, outer, houter, _, rfl, _, ⟨hbehind, hnodup'⟩, inner, hinner,
      _, ⟨rfl, hc⟩, ?_⟩
    rw [(houter.orElse hinner).unique hoptions]
    rfl

end VectorIndex.CommandLine
