import OmniKV.Kv
import OmniKV.Lib.Decimal
import OmniKV.Lib.Words

/-!
# Parser

The commands a user types at the network actor (`parse_command`).

The line is trimmed and split at each single space, and the pieces are taken for the words of a command
by their position. This is right where the words are what single spaces separate. A doubled space makes
an empty word and moves the ones behind it, and a tab stays inside a word. What stands behind the last
word that is needed is the port: it has to be a number, or `unwrap` panics, and what is behind it is not
looked at.

* `parseCommand_iff` — on which lines the parser does what its help text says.
* `parse_print` — the line made of a command is parsed as that command.
-/

namespace OmniKV
namespace Parser

open Words Decimal

/-- `char::is_whitespace`, the property White_Space of Unicode. -/
def isWhitespace (c : Char) : Bool :=
  let n := c.toNat
  n = 0x20 || (0x09 ≤ n && n ≤ 0x0D) || n = 0x85 || n = 0xA0 || n = 0x1680 ||
    (0x2000 ≤ n && n ≤ 0x200A) || n = 0x2028 || n = 0x2029 || n = 0x202F || n = 0x205F || n = 0x3000

structure ParseCommandError where
  msg : String
  deriving DecidableEq, Repr

inductive Panic where
  | unwrap
  deriving DecidableEq, Repr

abbrev Parsed := Except Panic (Except ParseCommandError (KVCommand × Option Nat))

/-- `line.trim().split(" ")` -/
def pieces (line : String) : List String :=
  ((trim isWhitespace line.toList).splitOn ' ').map String.ofList

/-- `x.parse::<u64>()`, which also takes a `+` before the digits. -/
def parseU64 (x : String) : Option Nat :=
  match x.toList with
  | [] => none
  | '+' :: [] => none
  | '+' :: digits => readDigits (2 ^ 64) digits
  | digits => readDigits (2 ^ 64) digits

def nextPort : List String → Except Panic (Option Nat)
  | [] => .ok none
  | x :: _ =>
    match parseU64 x with
    | some port => .ok (some port)
    | none => .error .unwrap

def withPort (command : KVCommand) (words : List String) : Parsed :=
  match nextPort words with
  | .ok port => .ok (.ok (command, port))
  | .error p => .error p

def parseWords : List String → Parsed
  | [] => .ok (.error ⟨"Not enough arguments"⟩)
  | commandType :: words =>
    match commandType with
    | "delete" =>
      match words with
      | [] => .ok (.error ⟨"Not enough arguments"⟩)
      | value :: words => withPort (.delete value) words
    | "get" =>
      match words with
      | [] => .ok (.error ⟨"Not enough arguments"⟩)
      | value :: words => withPort (.get value) words
    | "put" =>
      match words with
      | [] => .ok (.error ⟨"Not enough arguments"⟩)
      | _ :: [] => .ok (.error ⟨"Not enough arguments"⟩)
      | key :: value :: words => withPort (.put ⟨key, value⟩) words
    | "help" =>
      .ok (.error ⟨"Commands: put <key> <value>, get <key>, delete <key> (optional <port>)"⟩)
    | _ => .ok (.error ⟨"Invalid command type"⟩)

def parseCommand (line : String) : Parsed := parseWords (pieces line)

/-! ## The grammar -/

/-- The words of a line, whatever whitespace separates them. -/
def lineWords (line : String) : List String :=
  (words isWhitespace line.toList).map String.ofList

def commandWords : KVCommand → List String
  | .put ⟨key, value⟩ => ["put", key, value]
  | .get key => ["get", key]
  | .delete key => ["delete", key]

/-- A port: decimal digits for a number of 64 bits, or nothing. -/
inductive PortWords : List String → Option Nat → Prop where
  | absent : PortWords [] none
  | given {w : String} {n : Nat} : w ≠ "" → (∀ c ∈ w.toList, c.isDigit) →
      Nat.ofDigitChars 10 w.toList 0 = n → n < 2 ^ 64 → PortWords [w] (some n)

/-- `put <key> <value>`, `get <key>` or `delete <key>`, with a port behind it or not. -/
def Grammar (line : String) (command : KVCommand) (port : Option Nat) : Prop :=
  ∃ rest, lineWords line = commandWords command ++ rest ∧ PortWords rest port

def IsCommand (line : String) : Prop := ∃ command port, Grammar line command port

/-- The parser does not panic, accepts the line as the grammar does, and else returns an error. -/
def Follows (line : String) : Prop :=
  ∃ r, parseCommand line = .ok r ∧ ∀ command port, r = .ok (command, port) ↔
    Grammar line command port

/-- The pieces between single spaces begin like a command. -/
def Begins (line : String) : Prop := ∃ command rest, pieces line = commandWords command ++ rest

/-! ## By position -/

theorem parseWords_command (command : KVCommand) (rest : List String) :
    parseWords (commandWords command ++ rest) = withPort command rest := by
  cases command <;> rfl

/-- Without a command word and what it needs behind it, there is an error. -/
theorem parseWords_error {ws : List String}
    (h : ∀ command rest, ws ≠ commandWords command ++ rest) :
    ∃ e, parseWords ws = .ok (.error e) := by
  unfold parseWords
  split
  · exact ⟨_, rfl⟩
  · rename_i commandType words
    split
    · cases words with
      | nil => exact ⟨_, rfl⟩
      | cons value words => exact absurd rfl (h (.delete value) words)
    · cases words with
      | nil => exact ⟨_, rfl⟩
      | cons value words => exact absurd rfl (h (.get value) words)
    · match words with
      | [] => exact ⟨_, rfl⟩
      | [_] => exact ⟨_, rfl⟩
      | key :: value :: words => exact absurd rfl (h (.put ⟨key, value⟩) words)
    · exact ⟨_, rfl⟩
    · exact ⟨_, rfl⟩

theorem commandWords_append_inj {c c' : KVCommand} {rest rest' : List String}
    (h : commandWords c ++ rest = commandWords c' ++ rest') : c = c' ∧ rest = rest' := by
  cases c with
  | put kv =>
    cases c' with
    | put kv' =>
      obtain ⟨key, value⟩ := kv
      obtain ⟨key', value'⟩ := kv'
      simpa [commandWords, and_assoc] using h
    | get key' => simp [commandWords] at h
    | delete key' => simp [commandWords] at h
  | get key =>
    cases c' with
    | put kv' => simp [commandWords] at h
    | get key' => simpa [commandWords] using h
    | delete key' => simp [commandWords] at h
  | delete key =>
    cases c' with
    | put kv' => simp [commandWords] at h
    | get key' => simp [commandWords] at h
    | delete key' => simpa [commandWords] using h

theorem commandWords_ne_nil (command : KVCommand) : commandWords command ≠ [] := by
  cases command <;> simp [commandWords]

/-! ## Words and pieces -/

/-- A non-empty string without whitespace. -/
def Plain (s : String) : Prop := IsWord isWhitespace s.toList

theorem isWhitespace_of_isDigit {c : Char} (h : c.isDigit) : isWhitespace c = false := by
  have hrange : 48 ≤ c.toNat ∧ c.toNat ≤ 57 := Char.isDigit_iff_toNat.mp h
  simp only [isWhitespace, Bool.or_eq_false_iff, Bool.and_eq_false_iff, decide_eq_false_iff_not]
  omega

theorem plain_of_mem_lineWords {line w : String} (h : w ∈ lineWords line) : Plain w := by
  obtain ⟨l, hl, rfl⟩ := List.mem_map.mp h
  rw [Plain, String.toList_ofList]
  exact isWord_of_mem hl

theorem Plain.lineWords {w : String} (h : Plain w) : lineWords w = [w] := by
  rw [Parser.lineWords, IsWord.words h, List.map_singleton, String.ofList_toList]

theorem lineWords_flatMap {ws : List String} (h : ∀ w ∈ ws, Plain w) :
    ws.flatMap lineWords = ws := by
  induction ws with
  | nil => rfl
  | cons w ws ih =>
    rw [List.flatMap_cons, (h w List.mem_cons_self).lineWords,
      ih fun w' hw' => h w' (List.mem_cons_of_mem _ hw')]
    rfl

/-- The words of a line are the words of its pieces. -/
theorem lineWords_eq (line : String) : lineWords line = (pieces line).flatMap lineWords := by
  have hspace : isWhitespace ' ' = true := rfl
  have hchars := words_splitOn hspace (trim isWhitespace line.toList)
  rw [words_trim] at hchars
  rw [lineWords, hchars, pieces, List.flatMap_map, List.map_flatMap]
  simp only [lineWords, String.toList_ofList]

/-- Behind the first pieces there are no more, or there is another word. -/
theorem pieces_eq {line : String} {front more : List String} (h : pieces line = front ++ more)
    (hfront : front ≠ []) (hmore : more.flatMap lineWords = []) : more = [] := by
  obtain ⟨front', more', hsplit, rfl, rfl⟩ := List.map_eq_append_iff.mp h
  have hwords : more'.flatMap (words isWhitespace) = [] := by
    rw [List.flatMap_map] at hmore
    simpa [List.flatMap_eq_nil_iff, lineWords] using hmore
  have hspace : isWhitespace ' ' = true := rfl
  rw [eq_nil_of_flatMap_words hspace hsplit (by simpa using hfront) hwords]
  rfl

theorem parseU64_plain {x : String} {n : Nat} (h : parseU64 x = some n) : Plain x := by
  have hdigits : ∀ {l : List Char}, readDigits (2 ^ 64) l = some n →
      ∀ c ∈ l, isWhitespace c = false :=
    fun hread c hc => isWhitespace_of_isDigit (((readDigits_eq_some (by omega)).mp hread).1 c hc)
  unfold parseU64 at h
  rw [Plain]
  split at h
  · cases h
  · cases h
  · rename_i digits _ hl
    rw [hl]
    exact ⟨by simp, List.forall_mem_cons.mpr ⟨rfl, hdigits h⟩⟩
  · rename_i hne _ _
    exact ⟨hne, hdigits h⟩

theorem PortWords.nextPort {rest : List String} {port : Option Nat} (h : PortWords rest port) :
    nextPort rest = .ok port := by
  cases h with
  | absent => rfl
  | @given w n hne hdigits hvalue hn =>
    have hread : readDigits (2 ^ 64) w.toList = some n :=
      (readDigits_eq_some (by omega)).mpr ⟨hdigits, hvalue, hn⟩
    have hparse : parseU64 w = some n := by
      unfold parseU64
      split
      · rename_i hnil
        exact absurd (String.toList_eq_nil_iff.mp hnil) hne
      · rename_i hplus
        cases hdigits '+' (by simp [hplus])
      · rename_i hplus
        cases hdigits '+' (by simp [hplus])
      · exact hread
    rw [Parser.nextPort, hparse]

theorem Grammar.plain {line : String} {command : KVCommand} {port : Option Nat}
    (h : Grammar line command port) : ∀ w ∈ commandWords command, Plain w := by
  obtain ⟨rest, hwords, -⟩ := h
  intro w hw
  have hmem : w ∈ lineWords line := by
    rw [hwords]
    exact List.mem_append_left _ hw
  exact plain_of_mem_lineWords hmem

/-- A line that the grammar takes for what the parser makes of it has single spaces between its words. -/
theorem pieces_eq_lineWords {line : String} {command : KVCommand} {rest : List String}
    {port : Option Nat} (h : pieces line = commandWords command ++ rest)
    (hport : nextPort rest = .ok port) (hgrammar : Grammar line command port) :
    pieces line = lineWords line := by
  have hplain := hgrammar.plain
  obtain ⟨rest', hwords, hrest'⟩ := hgrammar
  have hsplit := lineWords_eq line
  rw [h, List.flatMap_append, lineWords_flatMap hplain, hwords, List.append_cancel_left_eq] at hsplit
  rw [h, hwords, List.append_cancel_left_eq]
  cases rest with
  | nil => rw [hsplit]; rfl
  | cons x more =>
    cases hrest' with
    | absent =>
      rw [Parser.nextPort] at hport
      split at hport <;> cases hport
    | @given w n hne hdigits hvalue hn =>
      have hx : parseU64 x = some n := by
        rw [Parser.nextPort] at hport
        split at hport
        · rename_i heq
          cases hport
          exact heq
        · cases hport
      rw [List.flatMap_cons, (parseU64_plain hx).lineWords, List.singleton_append] at hsplit
      obtain ⟨rfl, hmore⟩ := List.cons.inj hsplit
      rw [List.append_cons] at h
      rw [pieces_eq h (by simp) hmore.symm]

theorem IsCommand.begins {line : String} (h : IsCommand line) (hsingle : pieces line = lineWords line) :
    Begins line := by
  obtain ⟨command, port, rest, hwords, -⟩ := h
  exact ⟨command, rest, hsingle.trans hwords⟩

theorem Grammar.unique {line : String} {c c' : KVCommand} {port port' : Option Nat}
    (h : Grammar line c port) (h' : Grammar line c' port') : c = c' ∧ port = port' := by
  obtain ⟨rest, hwords, hport⟩ := h
  obtain ⟨rest', hwords', hport'⟩ := h'
  obtain ⟨rfl, rfl⟩ := commandWords_append_inj (hwords.symm.trans hwords')
  have hsame := hport.nextPort.symm.trans hport'.nextPort
  cases hsame
  exact ⟨rfl, rfl⟩

/-- Where the pieces begin like a command, it is accepted, or there is a panic. -/
theorem follows_iff_of_begins {line : String} (h : Begins line) :
    Follows line ↔ IsCommand line ∧ pieces line = lineWords line := by
  obtain ⟨command, rest, hpieces⟩ := h
  have hparse : parseCommand line = withPort command rest := by
    rw [parseCommand, hpieces, parseWords_command]
  constructor
  · rintro ⟨r, hr, hiff⟩
    rw [hparse, withPort] at hr
    split at hr
    · rename_i port hport
      cases hr
      have hgrammar := (hiff command port).mp rfl
      exact ⟨⟨command, port, hgrammar⟩, pieces_eq_lineWords hpieces hport hgrammar⟩
    · cases hr
  · rintro ⟨⟨command', port, rest', hwords, hport⟩, hsingle⟩
    obtain ⟨rfl, rfl⟩ := commandWords_append_inj (hpieces.symm.trans (hsingle.trans hwords))
    refine ⟨.ok (command, port), by rw [hparse, withPort, hport.nextPort], ?_⟩
    intro command' port'
    constructor
    · intro h
      cases h
      exact ⟨rest, hwords, hport⟩
    · intro hgrammar
      obtain ⟨rfl, rfl⟩ := Grammar.unique ⟨rest, hwords, hport⟩ hgrammar
      rfl

/-- Everywhere else there is an error. -/
theorem follows_iff_of_not_begins {line : String} (h : ¬Begins line) :
    Follows line ↔ ¬IsCommand line := by
  obtain ⟨e, he⟩ := parseWords_error fun command rest heq => h ⟨command, rest, heq⟩
  constructor
  · rintro ⟨r, hr, hiff⟩ ⟨command, port, hgrammar⟩
    rw [parseCommand, he] at hr
    cases hr
    cases (hiff command port).mpr hgrammar
  · intro hnot
    refine ⟨.error e, he, fun command port => ⟨nofun, fun hgrammar => ?_⟩⟩
    exact absurd ⟨command, port, hgrammar⟩ hnot

/-- What the parser is right about: if the words of a line form a command, single spaces separate them,
and if the pieces between single spaces begin like a command, the words form one. -/
theorem parseCommand_iff (line : String) :
    Follows line ↔ (Begins line → IsCommand line) ∧ (IsCommand line → pieces line = lineWords line) := by
  by_cases hbegins : Begins line
  · rw [follows_iff_of_begins hbegins]
    constructor
    · rintro ⟨hcommand, hsingle⟩
      exact ⟨fun _ => hcommand, fun _ => hsingle⟩
    · rintro ⟨hcommand, hsingle⟩
      exact ⟨hcommand hbegins, hsingle (hcommand hbegins)⟩
  · rw [follows_iff_of_not_begins hbegins]
    constructor
    · intro hnot
      exact ⟨fun h => absurd h hbegins, fun h => absurd h hnot⟩
    · rintro ⟨-, hsingle⟩ hcommand
      exact hbegins (hcommand.begins (hsingle hcommand))

/-- A doubled space makes an empty key, and a port that is not a number panics. -/
theorem misread : ¬Follows "put  a 1" ∧ ¬Follows "get a b" := by
  constructor
  · rintro ⟨r, hr, hiff⟩
    have hparse : parseCommand "put  a 1" = .ok (.ok (.put ⟨"", "a"⟩, some 1)) := by rfl
    rw [hparse] at hr
    cases hr
    exact (((hiff _ _).mp rfl).plain "" (by simp [commandWords])).1 rfl
  · rintro ⟨r, hr, -⟩
    have hparse : parseCommand "get a b" = .error .unwrap := by rfl
    rw [hparse] at hr
    cases hr

/-! ## Printing -/

/-- The line of a command and a port, with single spaces between the words. -/
def print (command : KVCommand) (port : Option Nat) : String :=
  " ".intercalate (commandWords command ++ (port.map toString).toList)

/-- The key of a command is a word, and so is the value of a put. -/
def PlainCommand : KVCommand → Prop
  | .put ⟨key, value⟩ => Plain key ∧ Plain value
  | .get key => Plain key
  | .delete key => Plain key

theorem plain_commandWords {command : KVCommand} (h : PlainCommand command) :
    ∀ w ∈ commandWords command, Plain w := by
  cases command with
  | put kv =>
    have hword : Plain "put" := by simp [Plain, IsWord, isWhitespace]
    simpa [commandWords] using ⟨hword, h⟩
  | get key =>
    have hword : Plain "get" := by simp [Plain, IsWord, isWhitespace]
    simpa [commandWords] using ⟨hword, h⟩
  | delete key =>
    have hword : Plain "delete" := by simp [Plain, IsWord, isWhitespace]
    simpa [commandWords] using ⟨hword, h⟩

theorem portWords_toString {port : Option Nat} (h : ∀ n, port = some n → n < 2 ^ 64) :
    PortWords (port.map toString).toList port := by
  cases port with
  | none => exact .absent
  | some n =>
    refine .given ?_ ?_ ?_ (h n rfl)
    · exact fun hempty => Nat.toDigits_ne_nil (toList_toString n ▸ congrArg String.toList hempty)
    · rw [toList_toString]
      exact fun c hc => isDigit_of_mem hc
    · rw [toList_toString, Nat.ofDigitChars_ten_toDigits]

theorem PortWords.plain {rest : List String} {port : Option Nat} (h : PortWords rest port) :
    ∀ w ∈ rest, Plain w := by
  cases h with
  | absent => simp
  | given hne hdigits =>
    intro w' hw'
    obtain rfl := List.mem_singleton.mp hw'
    exact ⟨by simpa using hne, fun c hc => isWhitespace_of_isDigit (hdigits c hc)⟩

/-- Words with single spaces between them, and any whitespace around them. -/
theorem pieces_intercalate {front back : String} (hfront : ∀ c ∈ front.toList, isWhitespace c)
    (hback : ∀ c ∈ back.toList, isWhitespace c) {ws : List String} (hne : ws ≠ [])
    (hwords : ∀ w ∈ ws, Plain w) : pieces (front ++ " ".intercalate ws ++ back) = ws := by
  have hplain : ∀ l ∈ ws.map String.toList, IsWord isWhitespace l := by
    intro l hl
    obtain ⟨w, hw, rfl⟩ := List.mem_map.mp hl
    exact hwords w hw
  have hspace : ∀ l ∈ ws.map String.toList, ' ' ∉ l :=
    fun l hl hmem => absurd ((hplain l hl).2 ' ' hmem) (by decide)
  have hline : (front ++ " ".intercalate ws ++ back).toList =
      front.toList ++ [' '].intercalate (ws.map String.toList) ++ back.toList := by
    rw [String.toList_append, String.toList_append, String.toList_intercalate]
    rfl
  rw [pieces, hline, trim_intercalate hfront hback (by simpa using hne) hplain,
    List.splitOn_intercalate ' ' hspace (by simpa using hne), List.map_map]
  simp

theorem parseCommand_print {command : KVCommand} {port : Option Nat} {front back : String}
    (hcommand : PlainCommand command) (hport : ∀ n, port = some n → n < 2 ^ 64)
    (hfront : ∀ c ∈ front.toList, isWhitespace c) (hback : ∀ c ∈ back.toList, isWhitespace c) :
    parseCommand (front ++ print command port ++ back) = .ok (.ok (command, port)) := by
  have hrest := portWords_toString hport
  have hne : commandWords command ++ (port.map toString).toList ≠ [] := by
    simp [commandWords_ne_nil]
  have hwords : ∀ w ∈ commandWords command ++ (port.map toString).toList, Plain w := by
    intro w hw
    exact (List.mem_append.mp hw).elim (plain_commandWords hcommand w) (hrest.plain w)
  rw [parseCommand, print, pieces_intercalate hfront hback hne hwords, parseWords_command, withPort,
    hrest.nextPort]

/-- The line made of a command and a port is parsed as these, so no other command and port make it. -/
theorem parse_print {command : KVCommand} {port : Option Nat} {front back : String}
    (hcommand : PlainCommand command) (hport : ∀ n, port = some n → n < 2 ^ 64)
    (hfront : ∀ c ∈ front.toList, isWhitespace c) (hback : ∀ c ∈ back.toList, isWhitespace c) :
    parseCommand (front ++ print command port ++ back) = .ok (.ok (command, port)) ∧
    ∀ command' port' front' back', PlainCommand command' → (∀ n, port' = some n → n < 2 ^ 64) →
      (∀ c ∈ String.toList front', isWhitespace c) → (∀ c ∈ String.toList back', isWhitespace c) →
      front' ++ print command' port' ++ back' = front ++ print command port ++ back →
      command' = command ∧ port' = port := by
  have hparse := parseCommand_print hcommand hport hfront hback
  refine ⟨hparse, ?_⟩
  intro command' port' front' back' hcommand' hport' hfront' hback' hline
  have hparse' := parseCommand_print hcommand' hport' hfront' hback'
  rw [hline, hparse] at hparse'
  cases hparse'
  exact ⟨rfl, rfl⟩

/-- A key that looks like a command word and a value that looks like a port. -/
theorem parse_print_largest :
    parseCommand "\tput get 8001 18446744073709551615\n" =
      .ok (.ok (.put ⟨"get", "8001"⟩, some 18446744073709551615)) :=
  (@parse_print (.put ⟨"get", "8001"⟩) (some 18446744073709551615) "\t" "\n"
    (by simp [PlainCommand, Plain, IsWord, isWhitespace]) (by simp) (by simp [isWhitespace])
    (by simp [isWhitespace])).1

end Parser
end OmniKV
