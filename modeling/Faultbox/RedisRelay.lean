-- The Redis proxy without rules: it reads a command (readRESPArray), writes it to the server and
-- brings one value back (readRESPRaw). The law: the server gets the commands of the client,
-- and the client all bytes of the server, each reply before its next command. It holds
-- exactly where no argument is null and the server pushes nothing.
import Faultbox.GoText

open gopath gotext

namespace faultbox.redis_relay

/-! ## The proxy -/

/-- The arguments after the first line of a command; a null one is read as the empty string. -/
def readBulks : Nat → Bytes → Option (List Bytes × Bytes)
  | 0, input => some ([], input)
  | n + 1, input =>
    match readLine input with
    | (_, none) => none
    | (line, some rest) =>
      let bulkLine := trimEol line
      if bulkLine.head? ≠ some 36 then none
      else
        let size := (atoi bulkLine.tail).1
        let arg := if size < 0 then some ([], rest)
          else (readFull (size + 2).toNat rest).map fun r => (r.1.take size.toNat, r.2)
        match arg with
        | none => none
        | some (buf, rest) => (readBulks n rest).map fun r => (buf :: r.1, r.2)

/-- `readRESPArray`, `none` where it fails. -/
def readRESPArray (input : Bytes) : Option (List Bytes × Bytes) :=
  match readLine input with
  | (_, none) => none
  | (line, some rest) =>
    let first := trimEol line
    if first.head? ≠ some 42 then none
    else
      let n := (atoi first.tail).1
      if n ≤ 0 then some ([], rest) else readBulks n.toNat rest

def numbered (marker : UInt8) (n : Nat) : Bytes := marker :: decimal n ++ crlf

def bulk (marker : UInt8) (data : Bytes) : Bytes := numbered marker data.length ++ (data ++ crlf)

def encodeRESPArray (args : List Bytes) : Bytes :=
  numbered 42 args.length ++ args.flatMap (bulk 36)

/-- A number of values one after the other. -/
def readMany (read : Bytes → Option (Bytes × Bytes)) : Nat → Bytes → Option (Bytes × Bytes)
  | 0, input => some ([], input)
  | n + 1, input =>
    match read input with
    | none => none
    | some (elem, rest) => (readMany read n rest).map fun r => (elem ++ r.1, r.2)

/-- `readRESPRaw`: the bytes of one value, and what follows; the fuel bounds how deep values
stand in one another. -/
def readRESPRaw : Nat → Bytes → Option (Bytes × Bytes)
  | 0, _ => none
  | fuel + 1, input =>
    match readLine input with
    | (_, none) => none
    | (line, some rest) =>
      let marker := line.headD 0
      let size := (atoi (trimEol line.tail)).1
      if marker = 36 ∨ marker = 61 ∨ marker = 33 then
        if size < 0 then some (line, rest)
        else (readFull (size + 2).toNat rest).map fun r => (line ++ r.1, r.2)
      else if marker = 42 ∨ marker = 126 ∨ marker = 62 then
        (readMany (readRESPRaw fuel) size.toNat rest).map fun r => (line ++ r.1, r.2)
      else if marker = 37 then
        (readMany (readRESPRaw fuel) (2 * size).toNat rest).map fun r => (line ++ r.1, r.2)
      -- an attribute is followed by the value that it is about
      else if marker = 124 then
        (readMany (readRESPRaw fuel) ((2 * size).toNat + 1) rest).map fun r => (line ++ r.1, r.2)
      else some (line, rest)

/-- The loop of `handleConn` without rules: for each command what went to the server, and what
came back to the client. -/
def relayLoop : Nat → Bytes → Bytes → List (Bytes × Bytes)
  | 0, _, _ => []
  | fuel + 1, client, server =>
    match readRESPArray client with
    | none => []
    | some (args, rest) =>
      if args = [] then relayLoop fuel rest server
      else
        match readRESPRaw (server.length + 1) server with
        | none => [(encodeRESPArray args, [])]
        | some (resp, more) => (encodeRESPArray args, resp) :: relayLoop fuel rest more

/-- `handleConn` on what the client sends and what the server answers. -/
def handleConn (client server : Bytes) : List (Bytes × Bytes) :=
  relayLoop (client.length + 1) client server

/-! ## Values of a server -/

/-- The types that are one line: simple string, error, number, null, boolean, double, big
number. -/
inductive LineType where
  | simple | error | number | null | boolean | double | bigNumber

def LineType.marker : LineType → UInt8
  | .simple => 43
  | .error => 45
  | .number => 58
  | .null => 95
  | .boolean => 35
  | .double => 44
  | .bigNumber => 40

inductive BlobType where
  | bulk | verbatim | error

def BlobType.marker : BlobType → UInt8
  | .bulk => 36
  | .verbatim => 61
  | .error => 33

inductive GroupType where
  | array | set | push | map | attributes
deriving DecidableEq

def GroupType.marker : GroupType → UInt8
  | .array => 42
  | .set => 126
  | .push => 62
  | .map => 37
  | .attributes => 124

/-- The values that follow the head of a group: its members, keys and values of a map, and
behind an attribute the value that it is about. -/
def GroupType.arity (count : Nat) : GroupType → Nat
  | .array | .set | .push => count
  | .map => 2 * count
  | .attributes => 2 * count + 1

/-- One line of a value with its data. The two nulls of the second version of the protocol are
`$-1` and `*-1`. -/
inductive Token where
  | line (type : LineType) (text : Bytes)
  | blob (type : BlobType) (data : Bytes)
  | nullBulk
  | nullArray
  | group (type : GroupType) (count : Nat)

def Token.arity : Token → Nat
  | .group type count => type.arity count
  | _ => 0

def Token.Valid : Token → Prop
  | .line _ text => newline ∉ text
  | .blob _ data => data.length + 2 < 2 ^ 63
  | .group _ count => 2 * count + 1 < 2 ^ 63
  | _ => True

def Token.encode : Token → Bytes
  | .line type text => type.marker :: text ++ crlf
  | .blob type data => redis_relay.bulk type.marker data
  | .nullBulk => bytes "$-1" ++ crlf
  | .nullArray => bytes "*-1" ++ crlf
  | .group type count => numbered type.marker count

/-- The tokens are `n` values: each stands before as many values as it announces. -/
def Complete : Nat → List Token → Prop
  | 0, tokens => tokens = []
  | _ + 1, [] => False
  | n + 1, t :: tokens => Complete (t.arity + n) tokens

def encodeTokens (tokens : List Token) : Bytes := tokens.flatMap Token.encode

/-- One value, through all that stands in it. -/
structure Value where
  tokens : List Token
  valid : ∀ t ∈ tokens, t.Valid
  complete : Complete 1 tokens

def Value.encode (v : Value) : Bytes := encodeTokens v.tokens

def Value.IsPush (v : Value) : Prop := ∃ n, v.tokens.head? = some (.group .push n)

/-! ## Sessions -/

/-- A command: its arguments, of which there is one at least; `none` is a null bulk string. -/
structure Command where
  args : List (Option Bytes)
  some_args : args ≠ []
  fits : args.length < 2 ^ 63
  short : ∀ a, some a ∈ args → a.length + 2 < 2 ^ 63

def encodeArg : Option Bytes → Bytes
  | none => bytes "$-1" ++ crlf
  | some data => bulk 36 data

def Command.encode (c : Command) : Bytes := numbered 42 c.args.length ++ c.args.flatMap encodeArg

/-- A command, what the server pushes before its reply, and the reply. -/
structure Exchange where
  command : Command
  pushes : List Value
  reply : Value
  arePushes : ∀ v ∈ pushes, v.IsPush
  isReply : ¬ reply.IsPush

def Exchange.values (e : Exchange) : List Value := e.pushes ++ [e.reply]

/-- Commands with their replies, and what the server pushes after the last. -/
structure Session where
  exchanges : List Exchange
  pushes : List Value
  arePushes : ∀ v ∈ pushes, v.IsPush

def Session.commands (s : Session) : List Command := s.exchanges.map Exchange.command

def Session.values (s : Session) : List Value := s.exchanges.flatMap Exchange.values ++ s.pushes

def encodeValues (values : List Value) : Bytes := values.flatMap Value.encode

def Session.relayed (s : Session) : List (Bytes × Bytes) :=
  handleConn (s.commands.flatMap Command.encode) (encodeValues s.values)

/-- The server gets the commands, the client all that the server sends, and the reply to each
command before the proxy takes the next. -/
structure Session.Transparent (s : Session) : Prop where
  commands : s.relayed.flatMap Prod.fst = s.commands.flatMap Command.encode
  values : s.relayed.flatMap Prod.snd = encodeValues s.values
  inTime : ∀ i, i < s.exchanges.length →
    encodeValues ((s.exchanges.take (i + 1)).flatMap Exchange.values) <+:
      (s.relayed.take (i + 1)).flatMap Prod.snd

/-! ## Reading a command -/

variable {tokens : List Token} {c : Command}

theorem readLine_numbered {marker : UInt8} (hm : marker ≠ newline) (n : Nat) (rest : Bytes) :
    readLine (numbered marker n ++ rest) = (numbered marker n, some rest) := by
  have hl : newline ∉ marker :: decimal n := by
    simp only [List.mem_cons, not_or]
    exact ⟨hm.symm, newline_notMem_decimal n⟩
  exact readLine_crlf hl rest

theorem trimEol_numbered (marker : UInt8) (n : Nat) :
    trimEol (numbered marker n) = marker :: decimal n := trimEol_decimal [marker] n

theorem readFull_bulk (data rest : Bytes) :
    readFull ((data.length : Int) + 2).toNat (data ++ crlf ++ rest) = some (data ++ crlf, rest) := by
  apply readFull_append
  simp only [List.length_append, crlf, List.length_cons, List.length_nil]
  omega

theorem readBulks_some {data : Bytes} (h : data.length + 2 < 2 ^ 63) (n : Nat) (rest : Bytes) :
    readBulks (n + 1) (encodeArg (some data) ++ rest) =
      (readBulks n rest).map fun r => (data :: r.1, r.2) := by
  have ha : atoi (decimal data.length) = ((data.length : Int), true) :=
    atoi_decimal (by omega)
  have hneg : ¬ (data.length : Int) < 0 := by omega
  rw [readBulks, encodeArg, bulk, List.append_assoc, readLine_numbered (by decide)]
  simp only [trimEol_numbered, List.head?_cons, List.tail_cons, ha, if_neg hneg,
    readFull_bulk, Option.map_some, ne_eq, not_true_eq_false, if_false]
  simp

theorem readBulks_none (n : Nat) (rest : Bytes) :
    readBulks (n + 1) (encodeArg none ++ rest) =
      (readBulks n rest).map fun r => ([] :: r.1, r.2) := by
  have hl : readLine (encodeArg none ++ rest) = (encodeArg none, some rest) :=
    readLine_crlf (by decide) rest
  have ht : trimEol (encodeArg none) = bytes "$-1" := by decide
  have hs : (atoi (bytes "$-1").tail).1 = -1 := by decide
  have hh : (bytes "$-1").head? = some 36 := by decide
  rw [readBulks, hl]
  simp only [ht, hh, hs, ne_eq, not_true_eq_false, if_false]
  rfl

def readArg (a : Option Bytes) : Bytes := a.getD []

theorem readBulks_args {args : List (Option Bytes)} (h : ∀ a, some a ∈ args → a.length + 2 < 2 ^ 63)
    (rest : Bytes) :
    readBulks args.length (args.flatMap encodeArg ++ rest) = some (args.map readArg, rest) := by
  induction args with
  | nil => rfl
  | cons a args ih =>
    have ht := ih fun b hb => h b (List.mem_cons_of_mem _ hb)
    rw [List.flatMap_cons, List.append_assoc, List.length_cons]
    cases a with
    | none => rw [readBulks_none, ht]; rfl
    | some data => rw [readBulks_some (h data List.mem_cons_self), ht]; rfl

def Command.read (c : Command) : List Bytes := c.args.map readArg

theorem Command.readRESPArray_encode (c : Command) (rest : Bytes) :
    readRESPArray (c.encode ++ rest) = some (c.read, rest) := by
  have hpos : 0 < c.args.length := List.length_pos_iff.mpr c.some_args
  have ha : atoi (decimal c.args.length) = ((c.args.length : Int), true) := atoi_decimal c.fits
  have hs : ¬ (c.args.length : Int) ≤ 0 := by omega
  unfold readRESPArray Command.encode
  rw [List.append_assoc, readLine_numbered (by decide)]
  simp only [trimEol_numbered, List.head?_cons, List.tail_cons, ha, if_neg hs,
    Int.toNat_natCast, ne_eq, not_true_eq_false, if_false]
  exact readBulks_args c.short rest

/-! ## Reading a value -/

theorem readRESPRaw_group {type : GroupType} {count : Nat} (h : 2 * count + 1 < 2 ^ 63)
    {fuel : Nat} {next members rest : Bytes}
    (hm : readMany (readRESPRaw fuel) (type.arity count) next = some (members, rest)) :
    readRESPRaw (fuel + 1) (numbered type.marker count ++ next) =
      some (numbered type.marker count ++ members, rest) := by
  have ha : (atoi (trimEol (numbered type.marker count).tail)).1 = count := by
    have ht : trimEol (numbered type.marker count).tail = decimal count :=
      trimEol_decimal [] count
    rw [ht, atoi_decimal (by omega)]
  have hma : type.marker ≠ newline := by
    cases type <;> decide
  have hd : (2 * (count : Int)).toNat = 2 * count := by omega
  have hh : (numbered type.marker count).headD 0 = type.marker := rfl
  rw [readRESPRaw, readLine_numbered hma]
  simp only [ha, hh, hd, Int.toNat_natCast]
  cases type with
  | array | set | push | map | attributes =>
    simp only [GroupType.arity] at hm
    simp [GroupType.marker, hm]

/-- A token is read together with the values that it announces. -/
theorem readRESPRaw_token {t : Token} (ht : t.Valid) {fuel : Nat} {next members rest : Bytes}
    (hm : readMany (readRESPRaw fuel) t.arity next = some (members, rest)) :
    readRESPRaw (fuel + 1) (t.encode ++ next) = some (t.encode ++ members, rest) := by
  cases t with
  | line type text =>
    simp only [Token.arity, readMany, Option.some.injEq, Prod.mk.injEq] at hm
    obtain ⟨rfl, rfl⟩ := hm
    have hl : newline ∉ type.marker :: text := by
      have hma : newline ≠ type.marker := by
        cases type <;> decide
      simp only [List.mem_cons, not_or]
      exact ⟨hma, ht⟩
    rw [readRESPRaw, Token.encode, readLine_crlf hl]
    cases type <;> simp [LineType.marker]
  | blob type data =>
    simp only [Token.arity, readMany, Option.some.injEq, Prod.mk.injEq] at hm
    obtain ⟨rfl, rfl⟩ := hm
    have hlen : data.length + 2 < 2 ^ 63 := ht
    have hma : type.marker ≠ newline := by
      cases type <;> decide
    have hb : type.marker = 36 ∨ type.marker = 61 ∨ type.marker = 33 := by
      cases type <;> decide
    have ha : (atoi (trimEol (numbered type.marker data.length).tail)).1 = data.length := by
      have htr : trimEol (numbered type.marker data.length).tail = decimal data.length :=
        trimEol_decimal [] data.length
      rw [htr, atoi_decimal (by omega)]
    have hh : (numbered type.marker data.length).headD 0 = type.marker := rfl
    have hneg : ¬ (data.length : Int) < 0 := by omega
    rw [readRESPRaw, Token.encode, bulk, List.append_assoc, readLine_numbered hma]
    simp only [ha, hh, if_pos hb, if_neg hneg, readFull_bulk]
    simp
  | nullBulk | nullArray =>
    simp only [Token.arity, readMany, Option.some.injEq, Prod.mk.injEq] at hm
    obtain ⟨rfl, rfl⟩ := hm
    rw [readRESPRaw, Token.encode, readLine_crlf (by decide), List.append_nil]
    rfl
  | group type count => exact readRESPRaw_group ht hm

theorem complete_zero : Complete 0 tokens ↔ tokens = [] := by
  cases tokens <;> simp [Complete]

theorem complete_cons {n : Nat} {t : Token} :
    Complete (n + 1) (t :: tokens) ↔ Complete (t.arity + n) tokens := by
  rw [Complete]

theorem Complete.split {a b : Nat} (h : Complete (a + b) tokens) :
    ∃ first second, tokens = first ++ second ∧ Complete a first ∧ Complete b second := by
  induction tokens generalizing a with
  | nil =>
    cases a with
    | zero =>
      rw [Nat.zero_add] at h
      exact ⟨[], [], rfl, complete_zero.mpr rfl, h⟩
    | succ a =>
      rw [Nat.succ_add] at h
      exact h.elim
  | cons t tokens ih =>
    cases a with
    | zero =>
      rw [Nat.zero_add] at h
      exact ⟨[], t :: tokens, rfl, complete_zero.mpr rfl, h⟩
    | succ a =>
      rw [Nat.succ_add, complete_cons, ← Nat.add_assoc] at h
      obtain ⟨first, second, rfl, hf, hs⟩ := ih h
      exact ⟨t :: first, second, rfl, complete_cons.mpr hf, hs⟩

/-- Values are read to their end. The induction is on the fuel for what stands in a value, and
on the number of values for those beside it. -/
theorem readMany_tokens (fuel : Nat) : ∀ {n : Nat} {tokens : List Token}, (∀ t ∈ tokens, t.Valid) →
    Complete n tokens → tokens.length ≤ fuel → ∀ rest,
    readMany (readRESPRaw fuel) n (encodeTokens tokens ++ rest) =
      some (encodeTokens tokens, rest) := by
  induction fuel with
  | zero =>
    intro n tokens _ hc hlen rest
    have hnil : tokens = [] := List.eq_nil_of_length_eq_zero (Nat.le_zero.mp hlen)
    subst hnil
    cases n with
    | zero => rfl
    | succ n => exact absurd hc (by simp [Complete])
  | succ fuel ihFuel =>
    intro n
    induction n with
    | zero =>
      intro tokens _ hc _ rest
      rw [complete_zero.mp hc]
      rfl
    | succ n ihCount =>
      intro tokens hv hc hlen rest
      cases tokens with
      | nil => exact absurd hc (by simp [Complete])
      | cons t tokens =>
        obtain ⟨members, others, rfl, hm, ho⟩ := (complete_cons.mp hc).split
        simp only [List.length_cons, List.length_append] at hlen
        have hi : readMany (readRESPRaw fuel) t.arity
            (encodeTokens members ++ (encodeTokens others ++ rest)) =
            some (encodeTokens members, encodeTokens others ++ rest) :=
          ihFuel (fun x hx => hv x (by simp [hx])) hm (by omega) _
        have hb : readMany (readRESPRaw (fuel + 1)) n (encodeTokens others ++ rest) =
            some (encodeTokens others, rest) :=
          ihCount (fun x hx => hv x (by simp [hx])) ho (by omega) rest
        have hs : encodeTokens (t :: (members ++ others)) ++ rest =
            t.encode ++ (encodeTokens members ++ (encodeTokens others ++ rest)) := by
          simp [encodeTokens]
        rw [hs, readMany, readRESPRaw_token (hv t List.mem_cons_self) hi]
        dsimp only
        rw [hb]
        simp [encodeTokens]

theorem Token.encode_pos (t : Token) : 0 < t.encode.length := by
  cases t <;> simp [Token.encode, redis_relay.bulk, numbered, crlf]

theorem length_le_encodeTokens (tokens : List Token) :
    tokens.length ≤ (encodeTokens tokens).length := by
  induction tokens with
  | nil => simp
  | cons t tokens ih =>
    have hone := t.encode_pos
    simp only [encodeTokens, List.flatMap_cons, List.length_append, List.length_cons] at ih ⊢
    omega

theorem Value.readRESPRaw_of_le (v : Value) {fuel : Nat} (h : v.tokens.length ≤ fuel)
    (rest : Bytes) : readRESPRaw fuel (v.encode ++ rest) = some (v.encode, rest) := by
  have hm := readMany_tokens fuel v.valid v.complete h rest
  rw [← Value.encode] at hm
  simp only [readMany] at hm
  split at hm
  · exact absurd hm (by simp)
  · rename_i elem more hr
    simp only [Option.map_some, List.append_nil, Option.some.injEq, Prod.mk.injEq] at hm
    obtain ⟨rfl, rfl⟩ := hm
    exact hr

theorem Value.readRESPRaw_encode (v : Value) (rest : Bytes) :
    readRESPRaw ((v.encode ++ rest).length + 1) (v.encode ++ rest) = some (v.encode, rest) := by
  have hlen := length_le_encodeTokens v.tokens
  apply v.readRESPRaw_of_le
  rw [Value.encode, List.length_append]
  omega

theorem Value.encode_pos (v : Value) : 0 < v.encode.length := by
  have hlen := length_le_encodeTokens v.tokens
  have hc := v.complete
  cases ht : v.tokens with
  | nil => simp [ht, Complete] at hc
  | cons t tokens =>
    rw [ht, List.length_cons] at hlen
    rw [Value.encode, ht]
    omega

/-! ## The relay -/

theorem Command.read_ne_nil (c : Command) : c.read ≠ [] := by
  simpa [Command.read] using c.some_args

theorem relayLoop_command (fuel : Nat) (c : Command) (client : Bytes) (v : Value) (server : Bytes) :
    relayLoop (fuel + 1) (c.encode ++ client) (v.encode ++ server) =
      (encodeRESPArray c.read, v.encode) :: relayLoop fuel client server := by
  rw [relayLoop, c.readRESPArray_encode]
  dsimp only
  rw [if_neg c.read_ne_nil, v.readRESPRaw_encode]

theorem relayLoop_commands {commands : List Command} {values : List Value}
    (h : commands.length ≤ values.length) (fuel : Nat) :
    relayLoop (fuel + 1 + commands.length) (commands.flatMap Command.encode) (encodeValues values) =
      (commands.map fun c => encodeRESPArray c.read).zip
        ((values.take commands.length).map Value.encode) := by
  induction commands generalizing values with
  | nil => simp [relayLoop, readRESPArray, readLine]
  | cons c commands ih =>
    cases values with
    | nil => simp at h
    | cons v values =>
      have hr := ih (by simpa using h)
      rw [List.flatMap_cons, encodeValues, List.flatMap_cons, List.length_cons, ← Nat.add_assoc,
        relayLoop_command, ← encodeValues, hr]
      rfl

theorem length_le_encode_commands (commands : List Command) :
    commands.length ≤ (commands.flatMap Command.encode).length := by
  induction commands with
  | nil => simp
  | cons c commands ih =>
    simp only [List.flatMap_cons, List.length_append, List.length_cons, Command.encode, numbered]
    omega

variable (s : Session)

theorem length_commands : s.commands.length = s.exchanges.length := List.length_map _

theorem length_exchanges_le : s.exchanges.length ≤ s.values.length := by
  have hall : ∀ l : List Exchange, l.length ≤ (l.flatMap Exchange.values).length := by
    intro l
    induction l with
    | nil => simp
    | cons e l ih =>
      simp only [List.flatMap_cons, List.length_append, List.length_cons, Exchange.values]
      omega
  have he := hall s.exchanges
  simp only [Session.values, List.length_append]
  omega

theorem relayed_eq :
    s.relayed = (s.commands.map fun c => encodeRESPArray c.read).zip
      ((s.values.take s.commands.length).map Value.encode) := by
  have hlen := length_le_encode_commands s.commands
  have hv : s.commands.length ≤ s.values.length := by
    rw [length_commands]
    exact length_exchanges_le s
  obtain ⟨k, hk⟩ : ∃ k, (s.commands.flatMap Command.encode).length + 1 =
      k + 1 + s.commands.length :=
    ⟨(s.commands.flatMap Command.encode).length - s.commands.length, by omega⟩
  unfold Session.relayed handleConn
  rw [hk, relayLoop_commands hv]

theorem relayed_fst :
    s.relayed.flatMap Prod.fst = s.commands.flatMap fun c => encodeRESPArray c.read := by
  have hv := length_exchanges_le s
  have hlen := length_commands s
  rw [relayed_eq, List.flatMap_def, List.map_fst_zip, List.flatMap_def]
  simp only [List.length_map, List.length_take]
  omega

theorem relayed_snd :
    s.relayed.flatMap Prod.snd = encodeValues (s.values.take s.exchanges.length) := by
  rw [relayed_eq, List.flatMap_def, List.map_snd_zip, length_commands, encodeValues,
    List.flatMap_def]
  simp only [List.length_map, List.length_take]
  omega

/-! ## What is lost -/

theorem length_arg (a : Option Bytes) : (encodeArg a).length ≤ (bulk 36 (readArg a)).length := by
  cases a with
  | none => decide
  | some data => exact Nat.le_refl _

theorem length_args (args : List (Option Bytes)) :
    (args.flatMap encodeArg).length ≤ ((args.map readArg).flatMap (bulk 36)).length := by
  induction args with
  | nil => simp
  | cons a args ih =>
    have hone := length_arg a
    simp only [List.map_cons, List.flatMap_cons, List.length_append]
    omega

theorem length_args_null {args : List (Option Bytes)} (h : none ∈ args) :
    (args.flatMap encodeArg).length < ((args.map readArg).flatMap (bulk 36)).length := by
  obtain ⟨front, back, rfl⟩ := List.append_of_mem h
  have hf := length_args front
  have hb := length_args back
  have hn : (encodeArg none).length < (bulk 36 (readArg none)).length := by decide
  simp only [List.map_append, List.map_cons, List.flatMap_append, List.flatMap_cons,
    List.length_append]
  omega

theorem Command.length_encode (c : Command) :
    c.encode.length ≤ (encodeRESPArray c.read).length := by
  have ha := length_args c.args
  simp only [Command.encode, encodeRESPArray, Command.read, List.length_append, List.length_map]
  omega

theorem Command.length_encode_null (h : none ∈ c.args) :
    c.encode.length < (encodeRESPArray c.read).length := by
  have ha := length_args_null h
  simp only [Command.encode, encodeRESPArray, Command.read, List.length_append, List.length_map]
  omega

theorem commands_le (commands : List Command) : (commands.flatMap Command.encode).length ≤
    (commands.flatMap fun c => encodeRESPArray c.read).length := by
  induction commands with
  | nil => simp
  | cons c commands ih =>
    have hone := c.length_encode
    simp only [List.flatMap_cons, List.length_append]
    omega

theorem relayed_null (hc : c ∈ s.commands) (h : none ∈ c.args) :
    s.relayed.flatMap Prod.fst ≠ s.commands.flatMap Command.encode := by
  obtain ⟨front, back, hs⟩ := List.append_of_mem hc
  have hf := commands_le front
  have hb := commands_le back
  have hl := Command.length_encode_null h
  intro heq
  have hlen := congrArg List.length heq
  rw [relayed_fst, hs] at hlen
  simp only [List.flatMap_append, List.flatMap_cons, List.length_append] at hlen
  omega

theorem relayed_push (h : s.exchanges.length < s.values.length) :
    s.relayed.flatMap Prod.snd ≠ encodeValues s.values := by
  intro heq
  rw [relayed_snd] at heq
  have hs : encodeValues s.values = encodeValues (s.values.take s.exchanges.length) ++
      encodeValues (s.values.drop s.exchanges.length) := by
    rw [encodeValues, encodeValues, encodeValues, ← List.flatMap_append, List.take_append_drop]
  rw [hs] at heq
  have hnil : encodeValues (s.values.drop s.exchanges.length) = [] := by
    simpa using heq.symm
  cases hd : s.values.drop s.exchanges.length with
  | nil =>
    rw [List.drop_eq_nil_iff] at hd
    omega
  | cons v rest =>
    rw [hd, encodeValues, List.flatMap_cons, List.append_eq_nil_iff] at hnil
    have hpos := v.encode_pos
    rw [hnil.1] at hpos
    exact Nat.lt_irrefl _ hpos

theorem length_values (exchanges : List Exchange) : (exchanges.flatMap Exchange.values).length =
    exchanges.length + (exchanges.flatMap Exchange.pushes).length := by
  induction exchanges with
  | nil => rfl
  | cons e exchanges ih =>
    simp only [List.flatMap_cons, List.length_append, List.length_cons, Exchange.values,
      List.length_nil]
    omega

/-! ## The law -/

theorem Command.read_encode (h : none ∉ c.args) : encodeRESPArray c.read = c.encode := by
  have har : (c.args.map readArg).flatMap (bulk 36) = c.args.flatMap encodeArg := by
    rw [List.flatMap_map]
    apply List.flatMap_congr
    intro a ha
    cases a with
    | none => exact absurd ha h
    | some data => rfl
  simp only [encodeRESPArray, Command.encode, Command.read, List.length_map, har]

theorem flatMap_replies {exchanges : List Exchange} (h : ∀ e ∈ exchanges, e.pushes = []) :
    exchanges.flatMap Exchange.values = exchanges.map Exchange.reply := by
  rw [← List.flatMap_singleton' (exchanges.map Exchange.reply), List.flatMap_map]
  apply List.flatMap_congr
  intro e he
  simp [Exchange.values, h e he]

/-- The proxy is transparent exactly when no argument is null and nothing is pushed. -/
theorem session_transparent_iff :
    s.Transparent ↔ (∀ c ∈ s.commands, none ∉ c.args) ∧ (∀ e ∈ s.exchanges, e.pushes = []) ∧
      s.pushes = [] := by
  constructor
  · intro h
    have hco : s.exchanges.flatMap Exchange.pushes = [] ∧ s.pushes = [] := by
      by_contra hp
      apply relayed_push s _ h.values
      rw [Session.values, List.length_append, length_values]
      rw [not_and_or, ← Ne, ← Ne, ← List.length_pos_iff, ← List.length_pos_iff] at hp
      omega
    refine ⟨fun c hc hn => relayed_null s hc hn h.commands, ?_, hco.2⟩
    exact List.flatMap_eq_nil_iff.mp hco.1
  · rintro ⟨ha, hpu, haf⟩
    have hv : s.values = s.exchanges.map Exchange.reply := by
      rw [Session.values, haf, List.append_nil, flatMap_replies hpu]
    have hr : s.relayed =
        s.exchanges.map fun e => (e.command.encode, e.reply.encode) := by
      rw [relayed_eq, hv, length_commands, List.take_of_length_le (by simp),
        Session.commands, List.map_map, List.map_map, List.zip_map']
      apply List.map_congr_left
      intro e he
      have hre := Command.read_encode (ha e.command (List.mem_map_of_mem he))
      simp [hre]
    refine ⟨?_, ?_, ?_⟩
    · rw [hr, List.flatMap_map, Session.commands, List.flatMap_map]
    · rw [hr, List.flatMap_map, hv, encodeValues, List.flatMap_map]
    · intro i _
      rw [hr, ← List.map_take, List.flatMap_map,
        flatMap_replies fun e he => hpu e (List.mem_of_mem_take he), encodeValues,
        List.flatMap_map]

/-- A value is read back as its bytes and a list of arguments as the list, and both leave what
follows unread. -/
theorem framing_exact :
    (∀ (v : Value) (rest : Bytes) (fuel : Nat), v.tokens.length ≤ fuel →
      readRESPRaw fuel (v.encode ++ rest) = some (v.encode, rest)) ∧
    ∀ args : List Bytes, args ≠ [] → args.length < 2 ^ 63 →
      (∀ a ∈ args, a.length + 2 < 2 ^ 63) → ∀ rest : Bytes,
      readRESPArray (encodeRESPArray args ++ rest) = some (args, rest) := by
  constructor
  · intro v rest fuel h
    exact v.readRESPRaw_of_le h rest
  · intro args har hf hs rest
    let c : Command := ⟨args.map some, by simpa using har, by simpa using hf, by
      intro a ha
      exact hs a (by simpa using ha)⟩
    have hr : c.read = args := by
      have hso : readArg ∘ some = id := rfl
      simp [c, Command.read, hso]
    have he : encodeRESPArray args = c.encode := by
      rw [← Command.read_encode (by simp [c]), hr]
    rw [he, c.readRESPArray_encode, hr]

/-! ## A push, and a null -/

def simpleString (text : Bytes) (h : newline ∉ text) : Value where
  tokens := [.line .simple text]
  valid := by simpa [Token.Valid] using h
  complete := by simp [Complete, Token.arity]

def simpleCommand (args : List (Option Bytes)) (h : args ≠ [])
    (hfits : args.length + (args.map readArg).flatten.length + 2 < 2 ^ 63) : Command where
  args := args
  some_args := h
  fits := by omega
  short := by
    intro a ha
    have hmem : a ∈ args.map readArg := List.mem_map.mpr ⟨some a, ha, rfl⟩
    have hle := (List.sublist_flatten_of_mem hmem).length_le
    omega

/-- A push of one text. -/
def news : Value where
  tokens := [.group .push 1, .line .simple (bytes "news")]
  valid := by
    intro t ht
    simp only [List.mem_cons, List.not_mem_nil, or_false] at ht
    rcases ht with rfl | rfl
    · simp [Token.Valid]
    · show newline ∉ bytes "news"
      decide
  complete := by simp [Complete, Token.arity, GroupType.arity]

theorem news_is_framed :
    readRESPRaw 2 (news.encode ++ bytes "+PONG") = some (news.encode, bytes "+PONG") ∧
      readRESPArray (encodeRESPArray [bytes "GET", []] ++ bytes "*") =
        some ([bytes "GET", []], bytes "*") :=
  ⟨framing_exact.1 news _ 2 (by decide),
    framing_exact.2 _ (by simp) (by decide) (by decide) (bytes "*")⟩

/-- A push stands before the reply to `PING`. -/
def pushed : Session where
  exchanges := [{
    command := simpleCommand [some (bytes "PING")] (by simp) (by decide)
    pushes := [news]
    reply := simpleString (bytes "PONG") (by decide)
    arePushes := by simp [Value.IsPush, news]
    isReply := by simp [Value.IsPush, simpleString] }]
  pushes := []
  arePushes := by simp

/-- `ECHO` with a null argument. -/
def nullEcho : Session where
  exchanges := [{
    command := simpleCommand [some (bytes "ECHO"), none] (by simp) (by decide)
    pushes := []
    reply := simpleString (bytes "x") (by decide)
    arePushes := by simp
    isReply := by simp [Value.IsPush, simpleString] }]
  pushes := []
  arePushes := by simp

/-- The client that sent `PING` gets the push and not its reply; a null argument reaches the
server as an empty string. -/
theorem reply_withheld :
    pushed.relayed = [(bytes "*1\r\n$4\r\nPING\r\n", bytes ">1\r\n+news\r\n")] ∧
      ¬ pushed.Transparent ∧
      nullEcho.relayed =
        [(bytes "*2\r\n$4\r\nECHO\r\n$0\r\n\r\n", bytes "+x\r\n")] ∧
      ¬ nullEcho.Transparent := by
  refine ⟨by decide, fun h => ?_, by decide, fun h => ?_⟩
  · exact relayed_push pushed (by decide) h.values
  · exact relayed_null nullEcho List.mem_cons_self (by decide) h.commands

end faultbox.redis_relay
