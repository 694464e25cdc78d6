import Mathlib
import Teloxide.Core.Words

/-!
# Commands (`crates/teloxide/src/utils/command.rs`, `crates/teloxide-macros`)

The grammar of a command is written down twice: `parse_command_with_prefix` walks over
the words of the text, and `BotCommands::parse`, which `impl_parse` generates for an enum,
splits the text at the separators of the enum. A variant is a `Command`: its names and how
its fields are read from what is behind the command.

Results:
* `parseCommandWithPrefix_iff`: without white space in the prefix, what the function
  returns is the part of the text behind the prefix.
* `locates_iff`: with white space in it there is a text for which it panics, or returns
  something else.
* `select_iff`, `parse_split`: on words with single spaces between them the generated
  parser selects the variant of the command, and counts the arguments of a split one.
-/
namespace Teloxide.Utils.Commands

open Teloxide.Core Teloxide.Core.Utf8 Teloxide.Core.Words

/-- `str::eq_ignore_ascii_case` -/
def eqIgnoreAsciiCase (a b : Str) : Bool := toAsciiLowercase a = toAsciiLowercase b

/-- mirrors command.rs:439-460 -/
def parseCommandWithPrefix (pre text botName : Str) : Checked (Option (Str × List Str)) :=
  if !pre.isPrefixOf text then .ok none
  else
    match splitWhitespace text with
    | [] => .ok none
    | word :: words => do
      match split ['@'] (← sliceFrom word (len pre)) with
      | [] => .ok none
      | command :: bot =>
        match bot.head? with
        | some name => if eqIgnoreAsciiCase name botName then .ok (some (command, words)) else .ok none
        | none => .ok (some (command, words))

/-- mirrors command.rs:401-406 -/
def parseCommand (text botName : Str) : Checked (Option (Str × List Str)) := parseCommandWithPrefix ['/'] text botName

/-! ## The generated parser -/

/-- The errors of a parser; `E` is what `from_str` and custom parsers fail with.
mirrors command.rs:273-296 -/
inductive ParseError (E : Type) where
  | tooFewArguments (expected found : Nat) (message : Str)
  | tooManyArguments (expected found : Nat) (message : Str)
  | incorrectFormat (error : E)
  | unknownCommand (command : Str)
  | wrongBotName (botName : Str)
  | custom (error : E)
  deriving DecidableEq, Repr

section

variable (E V : Type)

/-- `from_str` of the type of a field; `V` has the values of all of them. -/
abbrev FromStr := Str → Except E V

/-- mirrors fields_parse.rs:7-11 -/
inductive ParserType where
  | default
  | split (separator : Option Str)
  | custom (path : Str → Except (ParseError E) (List V))

/-- The fields of a variant, in their order. -/
inductive Fields where
  | unit
  | unnamed (types : List (FromStr E V))
  | named (types : List (String × FromStr E V))

end

section

variable {E V : Type}

def Fields.types : Fields E V → List (FromStr E V)
  | .unit => []
  | .unnamed types => types
  | .named types => types.map (·.2)

/-- The tuple of the arguments, field after field; with it what is left of `splitted`.
mirrors fields_parse.rs:115-132 -/
def takeArguments (expected : Nat) : Nat → List (FromStr E V) → List Str → Except (ParseError E) (List V × List Str)
  | _, [], splitted => .ok ([], splitted)
  | found, _ :: _, [] =>
    .error (.tooFewArguments expected found
      ("Expected but not found arg number ".toList ++ (toString (found + 1)).toList))
  | found, fromStr :: types, s :: splitted =>
    match fromStr s with
    | .error e => .error (.incorrectFormat e)
    | .ok value =>
      match takeArguments expected (found + 1) types splitted with
      | .error e => .error e
      | .ok (values, splitted) => .ok (value :: values, splitted)

/-- mirrors fields_parse.rs:110-154 -/
def parserWithSeparator (separator : Str) (types : List (FromStr E V)) (s : Str) : Except (ParseError E) (List V) :=
  let expected := types.length
  match takeArguments expected 0 types (split separator s) with
  | .error e => .error e
  | .ok (res, splitted) =>
    match splitted with
    | d :: splitted =>
      if s ≠ [] then
        .error (.tooManyArguments expected (expected + 1 + splitted.length) ("Excess argument: ".toList ++ d))
      else .ok res
    | [] => .ok res

/-- What reads the arguments, if this compiles: the default parser is for one field.
mirrors fields_parse.rs:75-108 -/
def createParser (parser : ParserType E V) (types : List (FromStr E V)) : Option (Str → Except (ParseError E) (List V)) :=
  match parser with
  | .default =>
    match types with
    | [fromStr] => some fun s =>
      match fromStr s with
      | .error e => .error (.incorrectFormat e)
      | .ok res => .ok [res]
    | _ => none
  | .split separator => some (parserWithSeparator (separator.getD [' ']) types)
  | .custom path => some path

/-- mirrors fields_parse.rs:30-40 -/
def implParseArgs (fields : Fields E V) (parser : ParserType E V) : Option (Str → Except (ParseError E) (List V)) :=
  match fields with
  | .unit => some fun _ => .ok []
  | .unnamed types => createParser parser types
  | .named types => createParser parser (types.map (·.2))

variable (E V) in
/-- A variant of an enum that compiles.
mirrors command.rs:10-26 of the macros -/
structure Command where
  commandPrefix : Str
  name : Str
  aliases : List Str
  fields : Fields E V
  parser : ParserType E V
  compiles : (implParseArgs fields parser).isSome = true

/-- mirrors command.rs:72-75 of the macros -/
def Command.getPrefixedCommand (c : Command E V) : Str := c.commandPrefix ++ c.name

/-- mirrors command.rs:77-82 of the macros -/
def Command.getPrefixedAliases (c : Command E V) : List Str := c.aliases.map (c.commandPrefix ++ ·)

def Command.parseArgs (c : Command E V) (args : Str) : Except (ParseError E) (List V) :=
  (implParseArgs c.fields c.parser).get c.compiles args

/-- The arms of `match command`: all the names come before the aliases.
mirrors bot_commands.rs:129-137 -/
def matchCommand (commands : List (Command E V)) (command : Str) : Option (Command E V) :=
  (commands.find? fun c => c.getPrefixedCommand == command).or
    (commands.find? fun c => c.getPrefixedAliases.contains command)

/-- The variant that `parse` takes, and the text of its arguments.
mirrors bot_commands.rs:115-137 -/
def select (commands : List (Command E V)) (commandSeparator s botName : Str) :
    Checked (Except (ParseError E) (Command E V × Str)) :=
  let (first, rest) := splitOnce commandSeparator s
  match split ['@'] first with
  | [] => .error .unreachable
  | command :: fullCommand =>
    let arm : Except (ParseError E) (Command E V × Str) :=
      match matchCommand commands command with
      | some c => .ok (c, rest.getD [])
      | none => .error (.unknownCommand command)
    match fullCommand.head? with
    | none => .ok arm
    | some username => if eqIgnoreAsciiCase username botName then .ok arm else .ok (.error (.wrongBotName username))

/-- mirrors bot_commands.rs:100-141 -/
def parse (commands : List (Command E V)) (commandSeparator s botName : Str) :
    Checked (Except (ParseError E) (Command E V × List V)) := do
  match ← select commands commandSeparator s botName with
  | .error e => .ok (.error e)
  | .ok (c, args) =>
    match c.parseArgs args with
    | .error e => .ok (.error e)
    | .ok values => .ok (.ok (c, values))

end

/-! ## A prefix and what is behind it -/

/-- The text behind the prefix; behind an empty one, without the white space in front. -/
def behind (pre text : Str) : Str := if pre = [] then trimStart text else text.drop pre.length

/-- Up to white space, `@` or the end. -/
def commandOf (s : Str) : Str := s.takeWhile fun c => isBlack c && c ≠ '@'

/-- For every text and bot name the prefix is taken off without a panic, and the command is
what stands behind it. -/
def Locates (pre : Str) : Prop :=
  ∀ text botName, Returns (parseCommandWithPrefix pre text botName) fun r =>
    ∀ command args, r = some (command, args) → pre <+: text ∧ command = commandOf (behind pre text)

theorem takeWhile_takeWhile_and (p q : Char → Bool) (s : Str) :
    (s.takeWhile p).takeWhile q = s.takeWhile fun c => p c && q c := by
  induction s with
  | nil => rfl
  | cons c s ih =>
    cases hp : p c with
    | false => simp [hp]
    | true =>
      cases hq : q c with
      | false => simp [hp, hq]
      | true => simp [hp, hq, ih]

/-- The first word of a text behind its prefix. -/
theorem head?_splitWhitespace_prefix {pre : Str} (hpre : ∀ c ∈ pre, isWhitespace c = false) (rest : Str) {word : Str}
    (h : (splitWhitespace (pre ++ rest)).head? = some word) :
    word = pre ++ (behind pre (pre ++ rest)).takeWhile isBlack := by
  unfold behind
  split
  · rename_i hnil
    subst hnil
    rw [List.nil_append, head?_splitWhitespace] at h
    split at h
    · cases h
    · exact (Option.some.inj h).symm
  · rename_i hne
    rw [head?_splitWhitespace_append hne hpre] at h
    rw [List.drop_left]
    exact (Option.some.inj h).symm

/-- What is returned for a prefix without white space. -/
theorem parseCommandWithPrefix_returns {pre : Str} (hpre : ∀ c ∈ pre, isWhitespace c = false) (text botName : Str) :
    Returns (parseCommandWithPrefix pre text botName) fun r =>
      ∀ command args, r = some (command, args) → pre <+: text ∧ command = commandOf (behind pre text) := by
  unfold parseCommandWithPrefix
  split
  · exact .ok fun _ _ h => nomatch h
  rename_i hstarts
  obtain ⟨rest, rfl⟩ : ∃ rest, text = pre ++ rest := isPrefixOf_iff.1 (by simpa using hstarts)
  split
  · exact .ok fun _ _ h => nomatch h
  rename_i word words hwords
  have hword := head?_splitWhitespace_prefix hpre rest (show _ = some word by rw [hwords]; rfl)
  rw [hword, sliceFrom_append]
  dsimp only [bind, Except.bind]
  split
  · exact .ok fun _ _ h => nomatch h
  rename_i command bot hsplit
  have hcommand : command = commandOf (behind pre (pre ++ rest)) := by
    have := head?_split_singleton '@' ((behind pre (pre ++ rest)).takeWhile isBlack)
    rw [hsplit, takeWhile_takeWhile_and] at this
    exact Option.some.inj this
  have hlocated (args : List Str) : ∀ command' args', some (command, args) = some (command', args') →
      pre <+: pre ++ rest ∧ command' = commandOf (behind pre (pre ++ rest)) := by
    intro command' args' h
    cases h
    exact ⟨List.prefix_append pre rest, hcommand⟩
  split
  · split
    · exact .ok (hlocated words)
    · exact .ok fun _ _ h => nomatch h
  · exact .ok (hlocated words)

/-- The arguments are the words behind the first one. -/
theorem args_of_parseCommandWithPrefix {pre text botName command : Str} {args : List Str}
    (h : parseCommandWithPrefix pre text botName = .ok (some (command, args))) : args = (splitWhitespace text).tail := by
  unfold parseCommandWithPrefix at h
  split at h
  · cases h
  split at h
  · cases h
  rename_i word words hwords
  obtain ⟨_, -, h⟩ := bind_eq_ok h
  split at h
  · cases h
  split at h
  · split at h
    · cases h
      rw [hwords, List.tail_cons]
    · cases h
  · cases h
    rw [hwords, List.tail_cons]

/-- A prefix with white space in it: in front of a letter, the first word is too short. -/
theorem not_locates {pre : Str} {c : Char} (hc : c ∈ pre) (hspace : isWhitespace c = true) : ¬ Locates pre := by
  intro h
  obtain ⟨r, hr, hlocated⟩ := h (pre ++ ['a']) []
  have hne : pre ≠ [] := List.ne_nil_of_mem hc
  have hshort : len ((pre ++ ['a']).filter isBlack) ≤ len pre := by
    obtain ⟨before, after, rfl⟩ := List.append_of_mem hc
    have hbefore := len_le_of_sublist (List.filter_sublist (l := before) (p := isBlack))
    have hafter := len_le_of_sublist (List.filter_sublist (l := after ++ ['a']) (p := isBlack))
    have hpos := c.utf8Size_pos
    have ha : len ['a'] = 1 := rfl
    rw [List.append_assoc, List.cons_append, List.filter_append, List.filter_cons_of_neg (by rw [isBlack, hspace]; decide),
      len_append, len_append, len_cons]
    rw [len_append, ha] at hafter
    omega
  have hword {word : Str} (hw : (splitWhitespace (pre ++ ['a'])).head? = some word) : len word ≤ len pre :=
    Nat.le_trans (len_le_of_sublist (sublist_of_head?_splitWhitespace hw)) hshort
  have hstarts : (!pre.isPrefixOf (pre ++ ['a'])) = false := by simp
  have hsome : (splitWhitespace (pre ++ ['a'])).head? ≠ none := by
    rw [head?_splitWhitespace]
    have hkept : trimStart (pre ++ ['a']) ≠ [] := by
      intro hnil
      exact absurd (List.dropWhile_eq_nil_iff.mp hnil 'a' (by simp)) (by decide)
    rw [if_neg hkept]
    exact Option.some_ne_none _
  rw [parseCommandWithPrefix, hstarts, if_neg (by decide)] at hr
  split at hr
  · rename_i hnil
    exact hsome (by rw [hnil]; rfl)
  rename_i word words hwords
  have hle : len word ≤ len pre := hword (by rw [hwords]; rfl)
  obtain ⟨rest, hrest, hgo⟩ := bind_eq_ok hr
  obtain ⟨front, rfl, hlen⟩ := sliceFrom_eq_ok_iff.1 hrest
  have hnil : rest = [] := len_eq_zero_iff.1 (by rw [len_append] at hle; omega)
  subst hnil
  cases hgo
  obtain ⟨-, hcommand⟩ := hlocated [] words rfl
  rw [behind, if_neg hne, List.drop_left] at hcommand
  cases hcommand

theorem locates_iff (pre : Str) : Locates pre ↔ ∀ c ∈ pre, isWhitespace c = false := by
  constructor
  · intro h c hc
    cases hspace : isWhitespace c with
    | false => rfl
    | true => exact absurd h (not_locates hc hspace)
  · intro h text botName
    exact parseCommandWithPrefix_returns h text botName

/-- The word is over before the prefix is. -/
theorem prefix_with_space_panics :
    parseCommandWithPrefix "/a b".toList "/a b c".toList [] = .error .slice ∧ ¬ Locates "/a b".toList := by
  refine ⟨by decide, fun h => ?_⟩
  obtain ⟨r, hr, -⟩ := h "/a b c".toList []
  cases (show parseCommandWithPrefix "/a b".toList "/a b c".toList [] = .error .slice by decide).symm.trans hr

/-! ## Both grammars on one text -/

section

variable {E V : Type} {commands : List (Command E V)} {c : Command E V} {words : List Str} {botName : Str}

def Command.names (c : Command E V) : List Str := c.name :: c.aliases

/-- An enum with the default prefix, whose names tell its variants apart. -/
structure Plain (commands : List (Command E V)) : Prop where
  slash : ∀ c ∈ commands, c.commandPrefix = ['/']
  distinct : (commands.flatMap Command.names).Nodup
  names : ∀ c ∈ commands, ∀ n ∈ c.names, ∀ x ∈ n, isWhitespace x = false ∧ x ≠ '@'

theorem Plain.unique (h : Plain commands) {d : Command E V} (hc : c ∈ commands) (hd : d ∈ commands) {n : Str}
    (hnc : n ∈ c.names) (hnd : n ∈ d.names) : c = d := by
  by_contra hne
  have hdisjoint := (List.nodup_flatMap.mp h.distinct).2
  have : Std.Symm (Function.onFun List.Disjoint (Command.names (E := E) (V := V))) := ⟨fun _ _ h n hd hc => h hc hd⟩
  exact hdisjoint.forall hc hd hne hnc hnd

theorem matchCommand_names {command : Str} (h : matchCommand commands command = some c) :
    c ∈ commands ∧ ∃ n ∈ c.names, command = c.commandPrefix ++ n := by
  rcases Option.or_eq_some_iff.mp h with h | ⟨-, h⟩
  · have hname : c.getPrefixedCommand = command := by simpa using List.find?_some h
    exact ⟨List.mem_of_find?_eq_some h, c.name, List.mem_cons_self, hname.symm⟩
  · have halias : command ∈ c.getPrefixedAliases := by simpa using List.find?_some h
    obtain ⟨n, hn, rfl⟩ := List.mem_map.mp halias
    exact ⟨List.mem_of_find?_eq_some h, n, List.mem_cons_of_mem _ hn, rfl⟩

theorem matchCommand_ne_none (hc : c ∈ commands) {n : Str} (hn : n ∈ c.names) :
    matchCommand commands (c.commandPrefix ++ n) ≠ none := by
  intro h
  obtain ⟨hname, halias⟩ := Option.or_eq_none_iff.mp h
  rcases List.mem_cons.mp hn with rfl | hn
  · have := List.find?_eq_none.mp hname c hc
    exact this (by simp [Command.getPrefixedCommand])
  · have := List.find?_eq_none.mp halias c hc
    exact this (by simpa [Command.getPrefixedAliases] using hn)

/-- The arm of a name. -/
theorem Plain.matchCommand_iff (h : Plain commands) {n : Str} :
    matchCommand commands ('/' :: n) = some c ↔ c ∈ commands ∧ n ∈ c.names := by
  constructor
  · intro hm
    obtain ⟨hc, n', hn, he⟩ := matchCommand_names hm
    rw [h.slash c hc, List.singleton_append, List.cons.injEq] at he
    exact ⟨hc, he.2 ▸ hn⟩
  · rintro ⟨hc, hn⟩
    have hsome := matchCommand_ne_none hc hn
    rw [h.slash c hc, List.singleton_append] at hsome
    obtain ⟨d, hd⟩ := Option.ne_none_iff_exists'.mp hsome
    obtain ⟨hdc, n', hn', he⟩ := matchCommand_names hd
    rw [h.slash d hdc, List.singleton_append, List.cons.injEq] at he
    rw [hd, h.unique hc hdc hn (he.2 ▸ hn')]

theorem Plain.starts (h : Plain commands) {command : Str} (hm : matchCommand commands command = some c) :
    ∃ n, command = '/' :: n := by
  obtain ⟨hc, n, -, rfl⟩ := matchCommand_names hm
  rw [h.slash c hc]
  exact ⟨n, rfl⟩

/-- The bot that is named, if one is, is this one. -/
def namesBot (bot : List Str) (botName : Str) : Bool :=
  match bot.head? with
  | some name => eqIgnoreAsciiCase name botName
  | none => true

theorem split_slash (w : Str) : split ['@'] ('/' :: w) = (split ['@'] w).modifyHead ('/' :: ·) := by
  rw [split_singleton, split_singleton, List.splitOn_cons_eq_if_modifyHead, if_neg (by decide)]

/-- What the function does with the first word. -/
theorem parseCommand_joined {w : Str} (hw : IsWord ('/' :: w)) (hwords : ∀ v ∈ words, IsWord v) {name : Str}
    {bot : List Str} (hsplit : split ['@'] w = name :: bot) :
    parseCommand (joined (('/' :: w) :: words)) botName = .ok (if namesBot bot botName then some (name, words) else none) := by
  have hstarts : (!(List.isPrefixOf ['/'] (joined (('/' :: w) :: words)))) = false := by
    cases words with
    | nil => simp [joined]
    | cons v words => simp [joined_cons_cons]
  have hsplits : splitWhitespace (joined (('/' :: w) :: words)) = ('/' :: w) :: words :=
    splitWhitespace_joined (List.forall_mem_cons.mpr ⟨hw, hwords⟩)
  have hslice : sliceFrom ('/' :: w) (len ['/']) = .ok w := sliceFrom_append ['/'] w
  rw [parseCommand, parseCommandWithPrefix, hstarts, if_neg (by decide), hsplits]
  dsimp only
  rw [hslice]
  dsimp only [bind, Except.bind]
  rw [hsplit]
  unfold namesBot
  dsimp only
  split
  · split
    · rfl
    · rfl
  · rfl

/-- What the generated parser does with it. -/
theorem select_joined {w : Str} (hw : IsWord ('/' :: w)) {name : Str} {bot : List Str}
    (hsplit : split ['@'] w = name :: bot) (hbot : namesBot bot botName = true) :
    select commands [' '] (joined (('/' :: w) :: words)) botName =
      .ok (match matchCommand commands ('/' :: name) with
        | some c => .ok (c, joined words)
        | none => .error (.unknownCommand ('/' :: name))) := by
  have hrest : (if words = [] then none else some (joined words)).getD [] = joined words := by
    split
    · rename_i hnil
      rw [hnil]
      rfl
    · rfl
  unfold select
  rw [splitOnce_joined hw]
  dsimp only
  rw [split_slash, hsplit, List.modifyHead_cons]
  dsimp only
  rw [hrest]
  unfold namesBot at hbot
  split
  · rfl
  · rename_i username hhead
    rw [hhead] at hbot
    rw [if_pos hbot]

/-- Another bot is named, or the first word is not a command. -/
theorem select_wrong {first : Str} {rest : Option Str} {s : Str} (hs : splitOnce [' '] s = (first, rest))
    {command : Str} {bot : List Str} (hsplit : split ['@'] first = command :: bot)
    (hwrong : namesBot bot botName = false ∨ matchCommand commands command = none) (r : Command E V × Str) :
    select commands [' '] s botName ≠ .ok (.ok r) := by
  unfold select
  rw [hs]
  dsimp only
  rw [hsplit]
  dsimp only
  intro h
  rcases hwrong with hbot | hnone
  · unfold namesBot at hbot
    split at h
    · rename_i hhead
      rw [hhead] at hbot
      cases hbot
    · rename_i username hhead
      rw [hhead] at hbot
      dsimp only at hbot
      rw [if_neg (by rw [hbot]; decide)] at h
      cases h
  · rw [hnone] at h
    split at h
    · cases h
    · split at h
      · cases h
      · cases h

/-- The generated parser selects the variant that has the command for a name, and leaves it
the words behind the command. -/
theorem Plain.select_iff (h : Plain commands) (hwords : ∀ w ∈ words, IsWord w) {rest : Str} :
    select commands [' '] (joined words) botName = .ok (.ok (c, rest)) ↔
      c ∈ commands ∧ ∃ name args, parseCommand (joined words) botName = .ok (some (name, args)) ∧ name ∈ c.names ∧
        rest = joined args := by
  cases words with
  | nil =>
    constructor
    · intro hs
      have hnone : matchCommand commands [] = none := by
        cases hm : matchCommand commands [] with
        | none => rfl
        | some d =>
          obtain ⟨n, he⟩ := h.starts hm
          cases he
      have hempty : splitOnce [' '] (joined []) = ([], none) := rfl
      have hsplit : split ['@'] [] = [[]] := rfl
      exact absurd hs (select_wrong hempty hsplit (Or.inr hnone) _)
    · rintro ⟨-, name, args, hp, -⟩
      cases hp
  | cons w words =>
    obtain ⟨hw, hrest⟩ := List.forall_mem_cons.mp hwords
    by_cases hslash : ∃ w', w = '/' :: w'
    · obtain ⟨w', rfl⟩ := hslash
      obtain ⟨name, bot, hsplit⟩ := List.exists_cons_of_ne_nil (split_singleton_ne_nil '@' w')
      have hparsed : parseCommand (joined (('/' :: w') :: words)) botName =
          .ok (if namesBot bot botName then some (name, words) else none) := parseCommand_joined hw hrest hsplit
      cases hbot : namesBot bot botName with
      | false =>
        have hsplit' : split ['@'] ('/' :: w') = ('/' :: name) :: bot := by
          rw [split_slash, hsplit, List.modifyHead_cons]
        constructor
        · intro hs
          exact absurd hs (select_wrong (splitOnce_joined hw words) hsplit' (Or.inl hbot) _)
        · rintro ⟨-, _, _, hp, -⟩
          rw [hparsed, hbot] at hp
          cases hp
      | true =>
        rw [hparsed, hbot, if_pos rfl, select_joined hw hsplit hbot]
        constructor
        · intro hs
          split at hs
          · rename_i d hm
            cases hs
            obtain ⟨hc, hn⟩ := h.matchCommand_iff.1 hm
            exact ⟨hc, name, words, rfl, hn, rfl⟩
          · cases hs
        · rintro ⟨hc, name', args, hp, hn, rfl⟩
          cases hp
          rw [h.matchCommand_iff.2 ⟨hc, hn⟩]
    · have hstarts : parseCommand (joined (w :: words)) botName = .ok none := by
        obtain ⟨x, w', rfl⟩ := List.exists_cons_of_ne_nil hw.1
        have hx : ('/' == x) = false := beq_false_of_ne fun he => hslash ⟨w', he ▸ rfl⟩
        obtain ⟨tail, htail⟩ : ∃ tail, joined ((x :: w') :: words) = x :: tail := by
          cases words with
          | nil => exact ⟨w', by simp [joined]⟩
          | cons v words => exact ⟨_, joined_cons_cons _ _ _⟩
        rw [parseCommand, parseCommandWithPrefix, htail, isPrefixOf_singleton, hx]
        rfl
      rw [hstarts]
      constructor
      · intro hs
        obtain ⟨command, bot, hsplit⟩ := List.exists_cons_of_ne_nil (split_singleton_ne_nil '@' w)
        have hnone : matchCommand commands command = none := by
          cases hm : matchCommand commands command with
          | none => rfl
          | some d =>
            obtain ⟨n, rfl⟩ := h.starts hm
            have hhead := head?_split_singleton '@' w
            rw [hsplit, List.head?_cons, Option.some.injEq] at hhead
            obtain ⟨tail, htail⟩ := List.takeWhile_prefix (l := w) fun x => decide (x ≠ '@')
            rw [← hhead] at htail
            exact absurd ⟨_, htail.symm⟩ hslash
        exact absurd hs (select_wrong (splitOnce_joined hw words) hsplit (Or.inr hnone) _)
      · rintro ⟨-, _, _, hp, -⟩
        cases hp

/-! ## The arguments of a split variant -/

/-- Arguments that the fields take; those without a counterpart are not looked at. -/
def Accepted (types : List (FromStr E V)) (args : List Str) : Prop := ∀ p ∈ types.zip args, ∃ v, p.1 p.2 = .ok v

/-- The values are those that the fields make of the arguments. -/
def Reads (types : List (FromStr E V)) (args : List Str) (values : List V) : Prop :=
  List.Forall₂ (fun p v => p.1 p.2 = .ok v) (types.zip args) values

theorem takeArguments_enough (expected found : Nat) {types : List (FromStr E V)} {args : List Str}
    (h : Accepted types args) (hle : types.length ≤ args.length) :
    ∃ values, takeArguments expected found types args = .ok (values, args.drop types.length) ∧ Reads types args values := by
  induction types generalizing found args with
  | nil => exact ⟨[], rfl, List.Forall₂.nil⟩
  | cons fromStr types ih =>
    cases args with
    | nil => simp at hle
    | cons a args =>
      obtain ⟨v, hv⟩ : ∃ v, fromStr a = .ok v := h (fromStr, a) (by simp)
      obtain ⟨values, ht, hr⟩ := @ih (found + 1) args (fun p hp => h p (List.mem_cons_of_mem _ hp))
        (by simpa using hle)
      refine ⟨v :: values, ?_, List.Forall₂.cons hv hr⟩
      rw [takeArguments, hv]
      dsimp only
      rw [ht]
      rfl

theorem takeArguments_few (expected found : Nat) {types : List (FromStr E V)} {args : List Str}
    (h : Accepted types args) (hlt : args.length < types.length) :
    ∃ message, takeArguments expected found types args = .error (.tooFewArguments expected (found + args.length) message) := by
  induction types generalizing found args with
  | nil => simp at hlt
  | cons fromStr types ih =>
    cases args with
    | nil => exact ⟨_, rfl⟩
    | cons a args =>
      obtain ⟨v, hv⟩ : ∃ v, fromStr a = .ok v := h (fromStr, a) (by simp)
      obtain ⟨message, ht⟩ := @ih (found + 1) args (fun p hp => h p (List.mem_cons_of_mem _ hp))
        (by simpa using hlt)
      refine ⟨message, ?_⟩
      rw [takeArguments, hv]
      dsimp only
      rw [ht, List.length_cons, Nat.add_right_comm, Nat.add_assoc]

/-- What a split variant makes of so many arguments. -/
def Counts (types : List (FromStr E V)) (args : List Str) (r : Except (ParseError E) (List V)) : Prop :=
  (args.length = types.length → ∃ values, r = .ok values ∧ Reads types args values) ∧
  (args.length < types.length → ∃ message, r = .error (.tooFewArguments types.length args.length message)) ∧
  (types.length < args.length → ∃ message, r = .error (.tooManyArguments types.length args.length message))

theorem parserWithSeparator_counts {types : List (FromStr E V)} {args : List Str} (hargs : ∀ a ∈ args, IsWord a)
    (hne : args ≠ []) (h : Accepted types args) : Counts types args (parserWithSeparator [' '] types (joined args)) := by
  have hsplit := split_joined hargs hne
  have hjoined : joined args ≠ [] := by
    cases args with
    | nil => exact absurd rfl hne
    | cons a args => exact joined_ne_nil (hargs a List.mem_cons_self) args
  refine ⟨fun he => ?_, fun hlt => ?_, fun hlt => ?_⟩
  · obtain ⟨values, ht, hr⟩ := takeArguments_enough types.length 0 h (Nat.le_of_eq he.symm)
    refine ⟨values, ?_, hr⟩
    rw [List.drop_of_length_le (Nat.le_of_eq he)] at ht
    rw [parserWithSeparator, hsplit, ht]
  · obtain ⟨message, ht⟩ := takeArguments_few types.length 0 h hlt
    rw [Nat.zero_add] at ht
    refine ⟨message, ?_⟩
    rw [parserWithSeparator, hsplit, ht]
  · obtain ⟨values, ht, -⟩ := takeArguments_enough types.length 0 h (Nat.le_of_lt hlt)
    obtain ⟨d, rest, hdrop⟩ := List.exists_cons_of_ne_nil
      (by rw [← List.length_pos_iff, List.length_drop]; omega : args.drop types.length ≠ [])
    have hcount : types.length + 1 + rest.length = args.length := by
      have := congrArg List.length hdrop
      rw [List.length_drop, List.length_cons] at this
      omega
    refine ⟨"Excess argument: ".toList ++ d, ?_⟩
    rw [parserWithSeparator, hsplit, ht, hdrop]
    dsimp only
    rw [if_pos hjoined, hcount]

/-- A variant with fields that are split at the default separator. -/
def Command.IsSplit (c : Command E V) : Prop :=
  c.fields.types ≠ [] ∧ ∃ separator, c.parser = .split separator ∧ separator.getD [' '] = [' ']

theorem parseArgs_split (hs : c.IsSplit) (args : Str) : c.parseArgs args = parserWithSeparator [' '] c.fields.types args := by
  obtain ⟨hne, separator, hparser, hsep⟩ := hs
  obtain ⟨commandPrefix, name, aliases, fields, parser, compiles⟩ := c
  subst hparser
  unfold Command.parseArgs
  cases fields with
  | unit => exact absurd rfl hne
  | unnamed types => exact congrArg (fun separator => parserWithSeparator separator types args) hsep
  | named types => exact congrArg (fun separator => parserWithSeparator separator (types.map (·.2)) args) hsep

/-- Both grammars say the same about a text. -/
structure Agrees (commands : List (Command E V)) (text botName : Str) : Prop where
  /-- a variant is selected iff the command is one of its names -/
  selected : ∀ c, (∃ args, select commands [' '] text botName = .ok (.ok (c, args))) ↔
    c ∈ commands ∧ ∃ name args, parseCommand text botName = .ok (some (name, args)) ∧ name ∈ c.names
  /-- and a split one counts the arguments -/
  counted : ∀ c name args, c ∈ commands → c.IsSplit → parseCommand text botName = .ok (some (name, args)) →
    name ∈ c.names → args ≠ [] → Accepted c.fields.types args →
    ∃ r, parse commands [' '] text botName = .ok (r.map fun values => (c, values)) ∧ Counts c.fields.types args r

theorem Plain.agrees (h : Plain commands) (hwords : ∀ w ∈ words, IsWord w) : Agrees commands (joined words) botName := by
  constructor
  · intro c
    constructor
    · rintro ⟨rest, hs⟩
      obtain ⟨hc, name, args, hp, hn, -⟩ := (h.select_iff hwords).1 hs
      exact ⟨hc, name, args, hp, hn⟩
    · rintro ⟨hc, name, args, hp, hn⟩
      exact ⟨_, (h.select_iff hwords).2 ⟨hc, name, args, hp, hn, rfl⟩⟩
  · intro c name args hc hsplit hp hn hne haccepted
    have hs := (h.select_iff hwords).2 ⟨hc, name, args, hp, hn, rfl⟩
    have hargs : ∀ a ∈ args, IsWord a := by
      rw [args_of_parseCommandWithPrefix hp, splitWhitespace_joined hwords]
      exact fun a ha => hwords a (List.mem_of_mem_tail ha)
    refine ⟨_, ?_, parserWithSeparator_counts hargs hne haccepted⟩
    unfold parse
    rw [hs]
    dsimp only [bind, Except.bind]
    rw [parseArgs_split hsplit]
    cases parserWithSeparator [' '] c.fields.types (joined args) with
    | error e => rfl
    | ok values => rfl

/-- The prefixes that are taken off right, and the two grammars on words with single spaces
between them. -/
theorem commands_parsed (pre : Str) (h : Plain commands) (hwords : ∀ w ∈ words, IsWord w) (botName : Str) :
    (Locates pre ↔ ∀ c ∈ pre, isWhitespace c = false) ∧ Agrees commands (joined words) botName :=
  ⟨locates_iff pre, h.agrees hwords⟩

end

/-- `Mute(String)`, split, with an alias. -/
def muteCommand : Command Unit Str where
  commandPrefix := ['/']
  name := "mute".toList
  aliases := ["m".toList]
  fields := .unnamed [.ok]
  parser := .split none
  compiles := rfl

theorem commands_parsed_mute :
    (Locates "!".toList ↔ ∀ c ∈ "!".toList, isWhitespace c = false) ∧
      Agrees [muteCommand] (joined ["/mute@bot".toList, "5".toList]) "Bot".toList :=
  commands_parsed "!".toList
    ⟨by decide, by decide, by
      intro c hc n hn x hx
      cases List.mem_singleton.mp hc
      exact of_decide_eq_true (List.all_eq_true.mp (List.all_eq_true.mp (by decide : muteCommand.names.all fun n =>
        n.all fun x => isWhitespace x = false ∧ x ≠ '@') n hn) x hx)⟩
    (by
      intro w hw
      simp only [List.mem_cons, List.not_mem_nil, or_false] at hw
      rcases hw with rfl | rfl
      · exact isWord_of_all rfl
      · exact isWord_of_all rfl)
    "Bot".toList

end Teloxide.Utils.Commands
