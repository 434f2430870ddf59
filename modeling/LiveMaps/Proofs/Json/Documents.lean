import LiveMaps.Proofs.Json.Numerals

namespace LiveMaps

namespace Hex

theorem value?_digit : ∀ n < 16, value? (digit n) = some n := by decide

theorem ofDigits?_digits (count n : Nat) : ofDigits? (digits count n) = some (n % Nat.pow 16 count) := by
  induction count generalizing n with
  | zero => simp [digits,ofDigits?,Nat.mod_one]
  | succ count ih =>
    have last := value?_digit (n % 16) (Nat.mod_lt _ (by decide))
    unfold ofDigits? at ih ⊢
    rw [digits,List.foldlM_append,ih]
    have split := Nat.mod_mul (x := n) (a := 16) (b := Nat.pow 16 count)
    have power : Nat.pow 16 (count + 1) = 16 * Nat.pow 16 count := Nat.mul_comm ..
    rw [power,split,Nat.add_comm (n % 16)]
    simp only [Option.bind_eq_bind,Option.bind_some,List.foldlM_cons,List.foldlM_nil,last,Option.map_some]
    rfl

theorem digits_length (count n : Nat) : (digits count n).length = count := by
  induction count generalizing n with
  | zero => rfl
  | succ count ih => simp [digits,ih]

end Hex

namespace Json
open Number

def lettered : List Char := ['\x22','\x5c','\x08','\x0c','\n','\r','\t']

-- The piece that a character is read as: control characters without a letter of their
-- own come back as a number.
def piece (c : Char) : Piece := if c ∉ lettered ∧ c.toNat < 32 then .unit c.toNat else .char c

theorem escapeChar_lettered {c : Char} (member : c ∈ lettered) :
    ∃ letter, escapeChar c = ['\x5c',letter] ∧ simpleEscape? (some letter) = some c := by
  simp only [lettered,List.mem_cons,List.not_mem_nil,or_false] at member
  rcases member with rfl | rfl | rfl | rfl | rfl | rfl | rfl <;> exact ⟨_,rfl,rfl⟩

theorem escapeChar_other {c : Char} (other : c ∉ lettered) :
    escapeChar c = if c.toNat < 32 then ['\x5c','u'] ++ Hex.digits 4 c.toNat else [c] := by
  simp only [lettered,List.mem_cons,List.not_mem_nil,or_false,not_or] at other
  simp only [escapeChar,other,if_false]

theorem readPieces_unit (n : Nat) (small : n < 0x10000) (rest : Symbols) :
    readPieces (written (['\x5c','u'] ++ Hex.digits 4 n) ++ rest) =
      (readPieces rest).map (fun (pieces,tail) => (.unit n :: pieces,tail)) := by
  have value : Hex.ofDigits? (Hex.digits 4 n) = some n :=
    (Hex.ofDigits?_digits 4 n).trans (congrArg some (Nat.mod_eq_of_lt small))
  simp only [Hex.digits,List.nil_append,List.cons_append] at value
  simp only [Hex.digits,List.nil_append,List.cons_append,written_cons,written_nil,readPieces,hexUnit?,
    Option.bind_eq_bind,Option.bind_some,value,Option.map_eq_bind]
  rfl

theorem readPieces_letter {escape : Option Char} {c : Char} (known : simpleEscape? escape = some c)
    (rest : Symbols) : readPieces (some '\x5c' :: escape :: rest) =
      (readPieces rest).map (fun (pieces,tail) => (.char c :: pieces,tail)) := by
  have other : escape ≠ some 'u' := by
    rintro rfl
    cases known
  rw [readPieces]
  · simp only [known,Option.map_eq_bind,Option.bind_eq_bind,Option.bind_some]
    rfl
  · exact fun _ _ _ _ _ same => absurd same other

theorem readPieces_plain {c : Char} (quote : c ≠ '\x22') (slash : c ≠ '\x5c') (printed : ¬ c.toNat < 32)
    (rest : Symbols) :
    readPieces (some c :: rest) = (readPieces rest).map (fun (pieces,tail) => (.char c :: pieces,tail)) := by
  rw [readPieces.eq_def]
  simp only [quote,slash,printed,if_false]

theorem readPieces_escape (c : Char) (rest : Symbols) : readPieces (written (escapeChar c) ++ rest) =
    (readPieces rest).map (fun (pieces,tail) => (piece c :: pieces,tail)) := by
  by_cases member : c ∈ lettered
  · obtain ⟨letter,escaped,known⟩ := escapeChar_lettered member
    have char : piece c = .char c := if_neg fun both => both.1 member
    rw [escaped,char]
    exact readPieces_letter known rest
  · rw [escapeChar_other member]
    split
    · rename_i control
      have unit : piece c = .unit c.toNat := if_pos ⟨member,control⟩
      rw [readPieces_unit c.toNat (by omega),unit]
    · rename_i printed
      have char : piece c = .char c := if_neg fun both => printed both.2
      simp only [lettered,List.mem_cons,not_or] at member
      rw [char]
      exact readPieces_plain member.1 member.2.1 printed rest

theorem readPieces_written (text : List Char) (rest : Symbols) :
    readPieces (written (text.flatMap escapeChar) ++ some '\x22' :: rest) = some (text.map piece,rest) := by
  induction text with
  | nil =>
    rw [readPieces.eq_def]
    rfl
  | cons c text ih =>
    rw [List.flatMap_cons,written_append,List.append_assoc,readPieces_escape,ih]
    rfl

theorem pieceChars?_unit {n : Nat} (small : n < 0xd800) (pieces : List Piece) :
    pieceChars? (.unit n :: pieces) = (pieceChars? pieces).map (Char.ofNat n :: ·) := by
  have high : isHighSurrogate n = false := by
    simp [isHighSurrogate]
    omega
  have low : isLowSurrogate n = false := by
    simp [isLowSurrogate]
    omega
  cases pieces with
  | nil => simp [pieceChars?,high,low]
  | cons next rest => cases next <;> simp [pieceChars?,high,low]

theorem pieceChars?_piece (text : List Char) : pieceChars? (text.map piece) = some text := by
  induction text with
  | nil => rfl
  | cons c text ih =>
    rw [List.map_cons,piece]
    split
    · rename_i control
      rw [pieceChars?_unit (by omega),ih,Option.map_some,Char.ofNat_toNat]
    · rw [pieceChars?,ih,Option.map_some]

theorem readString_written (text : String) (rest : Symbols) :
    readString (written (text.toList.flatMap escapeChar) ++ some '\x22' :: rest) =
      some (some text,rest) := by
  simp [readString,readPieces_written,pieceChars?_piece]

-- Documents that say all there is to their strings and numerals.
inductive Legible : Json → Prop where
  | null : Legible .null
  | bool (value : Bool) : Legible (.bool value)
  | number {n : Numeral} (decimal : IsDecimal n) : Legible (.number n)
  | text (text : String) : Legible (.text text)
  | array {items : List Json} (each : ∀ item ∈ items, Legible item) : Legible (.array items)
  | record {members : List (String × Json)} (each : ∀ member ∈ members, Legible member.2) :
    Legible (.record members)

-- How a document is laid out: what stands in front of an item, a member or a closing bracket, and
-- behind a colon. All of it is blank.
structure Style where
  line : Nat → List Char
  gap : List Char
  lined : ∀ depth, ∀ c ∈ line depth, isBlank (some c) = true
  gapped : ∀ c ∈ gap, isBlank (some c) = true

namespace Style

mutual
def chars (style : Style) (depth : Nat) : Json → List Char
  | .array [] => ['[',']']
  | .array items => '[' :: style.items (depth + 1) items ++ style.line depth ++ [']']
  | .object [] => ['\x7b','\x7d']
  | .object members => '\x7b' :: style.members (depth + 1) members ++ style.line depth ++ ['\x7d']
  | .null => "null".toList
  | .bool true => "true".toList
  | .bool false => "false".toList
  | .number n => n.chars
  | .string text => stringChars text

def items (style : Style) (depth : Nat) : List Json → List Char
  | [] => []
  | [item] => style.line depth ++ style.chars depth item
  | item :: next :: rest =>
    style.line depth ++ style.chars depth item ++ ',' :: style.items depth (next :: rest)

def members (style : Style) (depth : Nat) : List (Option String × Json) → List Char
  | [] => []
  | [(key,value)] => style.line depth ++ stringChars key ++ ':' :: style.gap ++ style.chars depth value
  | (key,value) :: next :: rest =>
    style.line depth ++ stringChars key ++ ':' :: style.gap ++ style.chars depth value ++
      ',' :: style.members depth (next :: rest)
end

theorem line_blank (depth : Nat) : ∀ c ∈ Json.line depth, isBlank (some c) = true := by
  intro c member
  rcases List.mem_cons.mp member with rfl | space
  · rfl
  · rw [List.eq_of_mem_replicate space]
    rfl

def pretty : Style := ⟨Json.line,[' '],line_blank,List.forall_mem_singleton.mpr rfl⟩

def compact : Style := ⟨fun _ => [],[],fun _ => List.forall_mem_nil _,List.forall_mem_nil _⟩

@[simp] theorem pretty_line (depth : Nat) : pretty.line depth = Json.line depth := rfl
@[simp] theorem pretty_gap : pretty.gap = [' '] := rfl
@[simp] theorem compact_line (depth : Nat) : compact.line depth = [] := rfl
@[simp] theorem compact_gap : compact.gap = [] := rfl

mutual
theorem pretty_chars (depth : Nat) : ∀ value, pretty.chars depth value = prettyChars depth value
  | .array [] | .object [] | .null | .bool true | .bool false | .number _ | .string _ => by
    simp only [chars,prettyChars]
  | .array (item :: rest) => by simp [chars,prettyChars,pretty_items (depth + 1) (item :: rest)]
  | .object (member :: rest) => by simp [chars,prettyChars,pretty_members (depth + 1) (member :: rest)]

theorem pretty_items (depth : Nat) : ∀ values, pretty.items depth values = prettyItems depth values
  | [] => rfl
  | [item] => by simp [items,prettyItems,pretty_chars depth item]
  | item :: next :: rest => by
    simp [items,prettyItems,pretty_chars depth item,pretty_items depth (next :: rest)]

theorem pretty_members (depth : Nat) : ∀ entries, pretty.members depth entries = prettyMembers depth entries
  | [] => rfl
  | [(key,value)] => by simp [members,prettyMembers,pretty_chars depth value]
  | (key,value) :: next :: rest => by
    simp [members,prettyMembers,pretty_chars depth value,pretty_members depth (next :: rest)]
end

mutual
theorem compact_chars (depth : Nat) : ∀ value, compact.chars depth value = value.chars
  | .array [] | .object [] | .null | .bool true | .bool false | .number _ | .string _ => by
    simp [chars,Json.chars,itemChars,memberChars]
  | .array (item :: rest) => by simp [chars,Json.chars,compact_items (depth + 1) (item :: rest)]
  | .object (member :: rest) => by simp [chars,Json.chars,compact_members (depth + 1) (member :: rest)]

theorem compact_items (depth : Nat) : ∀ values, compact.items depth values = itemChars values
  | [] => rfl
  | [item] => by simp [items,itemChars,compact_chars depth item]
  | item :: next :: rest => by
    simp [items,itemChars,compact_chars depth item,compact_items depth (next :: rest)]

theorem compact_members (depth : Nat) : ∀ entries, compact.members depth entries = memberChars entries
  | [] => rfl
  | [(key,value)] => by simp [members,memberChars,compact_chars depth value]
  | (key,value) :: next :: rest => by
    simp [members,memberChars,compact_chars depth value,compact_members depth (next :: rest)]
end

end Style

variable {style : Style} {blanks : List Char}

-- The value is read back wherever it stands, if nothing behind it can be taken for more of it.
def Returns (style : Style) (value : Json) : Prop := ∀ depth fuel rest, EndsNumeral rest →
  2 * (style.chars depth value).length < fuel →
  readValue fuel (written (style.chars depth value) ++ rest) = some (value,rest)

theorem returns_succ {value : Json} (read : ∀ depth fuel rest, EndsNumeral rest →
    2 * (style.chars depth value).length ≤ fuel →
    readValue (fuel + 1) (written (style.chars depth value) ++ rest) = some (value,rest)) :
    Returns style value := by
  intro depth fuel rest ends enough
  cases fuel with
  | zero => omega
  | succ fuel => exact read depth fuel rest ends (Nat.le_of_lt_succ enough)

theorem skipBlanks_blank (blank : ∀ c ∈ blanks, isBlank (some c) = true) (rest : Symbols) :
    skipBlanks (written blanks ++ rest) = skipBlanks rest := by
  refine List.dropWhile_append_of_pos fun symbol member => ?_
  obtain ⟨c,among,rfl⟩ := List.mem_map.mp member
  exact blank c among

theorem readValue_blank (blank : ∀ c ∈ blanks, isBlank (some c) = true) (fuel : Nat) (rest : Symbols) :
    readValue fuel (written blanks ++ rest) = readValue fuel rest := by
  cases fuel with
  | zero => rfl
  | succ fuel => simp only [readValue,skipBlanks_blank blank]

theorem skipBlanks_printed {c : Char} (printed : isBlank (some c) = false) (rest : Symbols) :
    skipBlanks (some c :: rest) = some c :: rest := by
  simp [skipBlanks,printed]

theorem digitChar_start : ∀ d < 10, isBlank (some (Numeral.digitChar d)) = false ∧
    Numeral.digitChar d ∉ ['n','t','f','\x22','[','\x7b',']'] := by decide

theorem numeral_start (n : Numeral) : ∃ c more, n.chars = c :: more ∧ isBlank (some c) = false ∧
    c ∉ ['n','t','f','\x22','[','\x7b',']'] := by
  obtain ⟨d,small,chars,first⟩ := natChars_first n.whole
  rw [chars_eq,first]
  cases n.negative with
  | true => exact ⟨'-',_,rfl,by decide⟩
  | false => exact ⟨Numeral.digitChar d,_,rfl,digitChar_start d small⟩

theorem chars_start (style : Style) (depth : Nat) (value : Json) :
    ∃ c more, style.chars depth value = c :: more ∧ isBlank (some c) = false ∧ c ≠ ']' := by
  cases value with
  | null => exact ⟨'n',_,rfl,by decide⟩
  | bool value => cases value <;> exact ⟨_,_,rfl,by decide⟩
  | number n =>
    obtain ⟨c,more,first,printed,other⟩ := numeral_start n
    exact ⟨c,more,first,printed,fun same => other (by simp [same])⟩
  | string text => exact ⟨'\x22',_,rfl,by decide⟩
  | array items => cases items <;> exact ⟨'[',_,rfl,by decide⟩
  | object members => cases members <;> exact ⟨'\x7b',_,rfl,by decide⟩

theorem number_returns {n : Numeral} (decimal : IsDecimal n) : Returns style (.number n) := by
  refine returns_succ fun depth fuel rest ends _ => ?_
  obtain ⟨c,more,first,printed,other⟩ := numeral_start n
  have read := readNumeral_written decimal ends
  rw [first,written_cons,List.cons_append] at read
  simp at other
  rw [Style.chars,first,written_cons,List.cons_append,readValue,skipBlanks_printed printed]
  simp [read,other]

theorem blank_ends {c : Char} (blank : isBlank (some c) = true) (rest : Symbols) :
    EndsNumeral (some c :: rest) := by
  rintro symbol first
  cases first
  simp only [isBlank,Bool.or_eq_true,beq_iff_eq,Option.some.injEq] at blank
  rcases blank with ((rfl | rfl) | rfl) | rfl <;> decide

theorem closing_ends {c : Char} (blank : ∀ c ∈ blanks, isBlank (some c) = true)
    (closing : c ∈ [',',']','\x7d']) (rest : Symbols) : EndsNumeral (written blanks ++ some c :: rest) := by
  cases blanks with
  | nil =>
    rintro symbol first
    cases first
    simp only [List.mem_cons,List.not_mem_nil,or_false] at closing
    rcases closing with rfl | rfl | rfl <;> decide
  | cons first more => exact blank_ends (blank first List.mem_cons_self) _

theorem comma_ends (rest : Symbols) : EndsNumeral (some ',' :: rest) :=
  closing_ends (List.forall_mem_nil _) List.mem_cons_self rest

theorem skipBlanks_closing {c : Char} (printed : isBlank (some c) = false)
    (blank : ∀ c ∈ blanks, isBlank (some c) = true) (rest : Symbols) :
    skipBlanks (written blanks ++ some c :: rest) = some c :: rest := by
  rw [skipBlanks_blank blank,skipBlanks_printed printed]

theorem readItems_written {items : List Json} (each : ∀ item ∈ items, Returns style item) (proper : items ≠ [])
    (depth outer fuel : Nat) (rest : Symbols) (enough : 2 * (style.items depth items).length + 2 ≤ fuel) :
    readItems fuel (written (style.items depth items) ++ (written (style.line outer) ++ some ']' :: rest)) =
      some (items,rest) := by
  induction items generalizing fuel with
  | nil => exact absurd rfl proper
  | cons item items ih =>
    obtain ⟨fuel,rfl⟩ : ∃ spare, fuel = spare + 1 := ⟨fuel - 1,by omega⟩
    have own := each item List.mem_cons_self depth fuel
    cases items with
    | nil =>
      simp only [Style.items,List.length_append] at enough
      have read := own _ (closing_ends (style.lined outer) (c := ']') (by simp) rest) (by omega)
      simp only [Style.items,written_append,List.append_assoc,readItems,readValue_blank (style.lined depth),read]
      simp [skipBlanks_closing (c := ']') rfl (style.lined outer)]
    | cons next items =>
      simp only [Style.items,List.length_append,List.length_cons] at enough
      have later := ih (fun item member => each item (List.mem_cons_of_mem _ member)) (by simp) fuel (by omega)
      have read := own _ (comma_ends (written (style.items depth (next :: items)) ++
        (written (style.line outer) ++ some ']' :: rest))) (by omega)
      simp only [Style.items,written_append,written_cons,List.append_assoc,List.cons_append,readItems,
        readValue_blank (style.lined depth),read]
      simp [skipBlanks_printed (c := ',') rfl,later]

theorem items_open (style : Style) (depth : Nat) (item : Json) (items : List Json) (rest : Symbols) :
    ∃ c more, skipBlanks (written (style.items depth (item :: items)) ++ rest) = some c :: more ∧ c ≠ ']' := by
  obtain ⟨c,more,first,printed,other⟩ := chars_start style depth item
  cases items <;>
    simp [Style.items,first,skipBlanks_blank (style.lined depth),skipBlanks_printed printed,other]

theorem array_returns {items : List Json} (each : ∀ item ∈ items, Returns style item) :
    Returns style (.array items) := by
  refine returns_succ fun depth fuel rest _ enough => ?_
  cases items with
  | nil => simp [Style.chars,readValue,skipBlanks_printed (c := '[') rfl,skipBlanks_printed (c := ']') rfl]
  | cons item items =>
    simp only [Style.chars,List.length_append,List.length_cons,List.length_nil] at enough
    have read := readItems_written each (by simp) (depth + 1) depth fuel rest (by omega)
    obtain ⟨c,more,opened,other⟩ :=
      items_open style (depth + 1) item items (written (style.line depth) ++ some ']' :: rest)
    simp [Style.chars,readValue,skipBlanks_printed (c := '[') rfl,read,opened,other]

theorem readMembers_key (style : Style) (depth fuel : Nat) (key : String) (rest : Symbols) :
    readMembers (fuel + 1)
        (written (style.line depth) ++
          (written (stringChars (some key)) ++ some ':' :: (written style.gap ++ rest))) =
      (readValue fuel rest).bind (fun (value,rest) =>
        match skipBlanks rest with
        | some ',' :: rest =>
          (readMembers fuel rest).bind (fun (members,tail) => some ((some key,value) :: members,tail))
        | some '\x7d' :: tail => some ([(some key,value)],tail)
        | _ => none) := by
  have read := readString_written key (some ':' :: (written style.gap ++ rest))
  simp only [written_append,written_cons,written_nil,stringChars,quotedChars,Option.getD_some,List.append_assoc,
    List.cons_append,List.nil_append,readMembers,skipBlanks_blank (style.lined depth),
    skipBlanks_printed (c := '\x22') rfl]
  simp only [read,skipBlanks_printed (c := ':') rfl,readValue_blank style.gapped,Option.bind_eq_bind,
    Option.bind_some]
  rfl

def named (members : List (String × Json)) : List (Option String × Json) :=
  members.map (fun member => (some member.1,member.2))

theorem readMembers_written {members : List (String × Json)}
    (each : ∀ member ∈ members, Returns style member.2) (proper : members ≠ [])
    (depth outer fuel : Nat) (rest : Symbols)
    (enough : 2 * (style.members depth (named members)).length + 2 ≤ fuel) :
    readMembers fuel (written (style.members depth (named members)) ++
      (written (style.line outer) ++ some '\x7d' :: rest)) = some (named members,rest) := by
  induction members generalizing fuel with
  | nil => exact absurd rfl proper
  | cons member members ih =>
    obtain ⟨fuel,rfl⟩ : ∃ spare, fuel = spare + 1 := ⟨fuel - 1,by omega⟩
    obtain ⟨key,value⟩ := member
    have own : Returns style value := each (key,value) List.mem_cons_self
    cases members with
    | nil =>
      simp only [named,List.map_cons,List.map_nil,Style.members,List.length_append,List.length_cons] at enough ⊢
      simp only [written_append,written_cons,List.append_assoc,List.cons_append]
      rw [readMembers_key,own depth fuel _ (closing_ends (style.lined outer) (by simp) rest) (by omega)]
      simp [skipBlanks_closing (c := '\x7d') rfl (style.lined outer)]
    | cons next members =>
      have later := ih (fun member known => each member (List.mem_cons_of_mem _ known)) (by simp) fuel
      simp only [named,List.map_cons,Style.members,List.length_append,List.length_cons] at enough later ⊢
      simp only [written_append,written_cons,List.append_assoc,List.cons_append]
      rw [readMembers_key,own depth fuel _ (comma_ends _) (by omega)]
      simp [skipBlanks_printed (c := ',') rfl,later (by omega)]

theorem members_open (style : Style) (depth : Nat) (member : String × Json) (members : List (String × Json))
    (rest : Symbols) : ∃ more, skipBlanks (written (style.members depth (named (member :: members))) ++ rest) =
      some '\x22' :: more := by
  cases members <;>
    simp [named,Style.members,stringChars,quotedChars,skipBlanks_blank (style.lined depth),
      skipBlanks_printed (c := '\x22') rfl]

theorem chars_record (style : Style) (depth : Nat) (member : String × Json) (members : List (String × Json)) :
    style.chars depth (record (member :: members)) =
      '\x7b' :: style.members (depth + 1) (named (member :: members)) ++ style.line depth ++ ['\x7d'] := by
  simp only [record,named,List.map_cons,Style.chars]

theorem record_returns {members : List (String × Json)} (each : ∀ member ∈ members, Returns style member.2) :
    Returns style (.record members) := by
  refine returns_succ fun depth fuel rest _ enough => ?_
  cases members with
  | nil =>
    simp [record,Style.chars,readValue,skipBlanks_printed (c := '\x7b') rfl,
      skipBlanks_printed (c := '\x7d') rfl]
  | cons member members =>
    simp only [chars_record,List.length_append,List.length_cons,List.length_nil] at enough
    have read := readMembers_written each (by simp) (depth + 1) depth fuel rest (by omega)
    obtain ⟨more,opened⟩ :=
      members_open style (depth + 1) member members (written (style.line depth) ++ some '\x7d' :: rest)
    simp [chars_record,readValue,skipBlanks_printed (c := '\x7b') rfl,read,opened]
    rfl

theorem null_returns : Returns style .null := by
  refine returns_succ fun depth fuel rest _ _ => ?_
  simp [Style.chars,readValue,skipBlanks_printed (c := 'n') rfl,literal?,symbols]

theorem bool_returns (value : Bool) : Returns style (.bool value) := by
  refine returns_succ fun depth fuel rest _ _ => ?_
  cases value
  · simp [Style.chars,readValue,skipBlanks_printed (c := 'f') rfl,literal?,symbols]
  · simp [Style.chars,readValue,skipBlanks_printed (c := 't') rfl,literal?,symbols]

theorem text_returns (text : String) : Returns style (.text text) := by
  refine returns_succ fun depth fuel rest _ _ => ?_
  simp [Json.text,Style.chars,stringChars,quotedChars,readValue,skipBlanks_printed (c := '\x22') rfl,
    readString_written]

theorem legible_returns {value : Json} (legible : Legible value) : Returns style value := by
  induction legible with
  | null => exact null_returns
  | bool value => exact bool_returns value
  | number decimal => exact number_returns decimal
  | text text => exact text_returns text
  | array each ih => exact array_returns ih
  | record each ih => exact record_returns ih

theorem read?_styled {value : Json} (legible : Legible value) (style : Style) :
    read? (written (style.chars 0 value)) = some value := by
  have returns : Returns style value := legible_returns legible
  have ends : EndsNumeral [] := fun symbol first => by cases first
  have read := returns 0 (2 * (written (style.chars 0 value)).length + 1) [] ends (by simp [written])
  rw [List.append_nil] at read
  simp [read?,read,skipBlanks]

theorem read?_pretty {value : Json} (legible : Legible value) :
    read? (written (value.prettyChars 0)) = some value := by
  rw [←Style.pretty_chars]
  exact read?_styled legible .pretty

theorem read?_compact {value : Json} (legible : Legible value) : read? (written value.chars) = some value := by
  rw [←Style.compact_chars 0]
  exact read?_styled legible .compact

end Json
end LiveMaps
