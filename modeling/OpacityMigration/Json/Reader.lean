import OpacityMigration.Json.Container

/-!
# Reading JSON

`parse` reads a text that is one JSON value. The first thing that is wrong in reading order decides
the error. Values may be nested up to a fixed depth.

The reader goes over the text once and keeps the containers that are open, innermost first. At each
point one of three things is due, a `Due`: a value, a key, or what may follow a value.
-/

namespace OpacityMigration.Json

def maxDepth : Nat := 127

/-- Reads a value that is no container. `none` if the text starts with no such value. -/
def readScalar? : List Char → Option (Except Fault (Json × List Char))
  | [] => none
  | c :: rest =>
    if c = 'n' then some ((readWord "ull".toList rest).map (Json.null, ·))
    else if c = 't' then some ((readWord "rue".toList rest).map (Json.bool true, ·))
    else if c = 'f' then some ((readWord "alse".toList rest).map (Json.bool false, ·))
    else if c = '-' then some ((readNumber true rest).map fun (n, rest) => (Json.number n, rest))
    else if c.isDigit then
      some ((readNumber false (c :: rest)).map fun (n, rest) => (Json.number n, rest))
    else if c = '"' then some ((readString rest).map fun (s, rest) => (Json.string s, rest))
    else none

inductive Open
  /-- An array with the items read so far, newest first. -/
  | array (items : List Json)
  /-- An object with the members read so far, newest first, and the key of the next. -/
  | object (members : List (String × Json)) (key : String)

inductive Due
  | value
  /-- The key of the next member, its opening quote being read, after the members so far. -/
  | key (members : List (String × Json))
  /-- A comma or a closing bracket after the given value, or the end. -/
  | close (value : Json)

theorem length_of_readWord {word text rest : List Char} (h : readWord word text = .ok rest) :
    rest.length ≤ text.length := by
  fun_induction readWord word text with
  | case1 => simp_all
  | case2 => contradiction
  | case3 word c rest' ih =>
    have := ih h
    simp only [List.length_cons]
    omega
  | case4 => contradiction

theorem length_of_readScalar? {text rest : List Char} {v : Json}
    (h : readScalar? text = some (.ok (v, rest))) : rest.length < text.length := by
  unfold readScalar? at h
  split at h
  · contradiction
  · next c body =>
    have word {w : List Char} {v' : Json}
        (h : some ((readWord w body).map (v', ·)) = some (Except.ok (v, rest))) :
        rest.length < (c :: body).length := by
      cases hx : readWord w body with
      | error fault => simp [hx, Except.map] at h
      | ok r =>
        have := length_of_readWord hx
        simp only [hx, Except.map, Option.some.injEq, Except.ok.injEq, Prod.mk.injEq] at h
        simp only [← h.2, List.length_cons]
        omega
    split at h
    · exact word h
    split at h
    · exact word h
    split at h
    · exact word h
    split at h
    · cases hx : readNumber true body with
      | error fault => simp [hx, Except.map] at h
      | ok r =>
        have := length_of_readNumber hx
        simp only [hx, Except.map, Option.some.injEq, Except.ok.injEq, Prod.mk.injEq] at h
        simp only [← h.2, List.length_cons]
        omega
    split at h
    · cases hx : readNumber false (c :: body) with
      | error fault => simp [hx, Except.map] at h
      | ok r =>
        have := length_of_readNumber hx
        simp only [hx, Except.map, Option.some.injEq, Except.ok.injEq, Prod.mk.injEq] at h
        simpa only [← h.2] using this
    split at h
    · cases hx : readString body with
      | error fault => simp [hx, Except.map] at h
      | ok r =>
        have := length_of_readString hx
        simp only [hx, Except.map, Option.some.injEq, Except.ok.injEq, Prod.mk.injEq] at h
        simp only [← h.2, List.length_cons]
        omega
    · contradiction

/-- Reads on until the outermost value is complete. -/
def readFrom (due : Due) (outer : List Open) (text : List Char) :
    Except Fault (Json × List Char) :=
  match due with
  | .value =>
    match _h : skipSpace text with
    | [] => .error (.on .endInValue [])
    | c :: rest =>
      match _hs : readScalar? (c :: rest) with
      | some (.error fault) => .error fault
      | some (.ok (v, rest)) => readFrom (.close v) outer rest
      | none =>
        if c = '[' then
          if maxDepth ≤ outer.length then .error (.on .nestedTooDeep (c :: rest))
          else
            match _hn : nextItem true rest with
            | .error fault => .error fault
            | .ok (.closed rest) => readFrom (.close (.array [])) outer rest
            | .ok (.entry text) => readFrom .value (.array [] :: outer) text
        else if c = '\x7b' then
          if maxDepth ≤ outer.length then .error (.on .nestedTooDeep (c :: rest))
          else
            match _hn : nextMember true rest with
            | .error fault => .error fault
            | .ok (.closed rest) => readFrom (.close (.object [])) outer rest
            | .ok (.entry text) => readFrom (.key []) outer text
        else .error (.on .expectedValue (c :: rest))
  | .key members =>
    match _hk : readString text with
    | .error fault => .error fault
    | .ok (key, rest) =>
      match _hc : readColon rest with
      | .error fault => .error fault
      | .ok rest => readFrom .value (.object members key :: outer) rest
  | .close v =>
    match outer with
    | [] => .ok (v, text)
    | .array items :: outer =>
      match _hn : nextItem false text with
      | .error fault => .error fault
      | .ok (.closed rest) => readFrom (.close (.array (v :: items).reverse)) outer rest
      | .ok (.entry text) => readFrom .value (.array (v :: items) :: outer) text
    | .object members key :: outer =>
      match _hn : nextMember false text with
      | .error fault => .error fault
      | .ok (.closed rest) => readFrom (.close (.object ((key, v) :: members).reverse)) outer rest
      | .ok (.entry text) => readFrom (.key ((key, v) :: members)) outer text
termination_by text.length
decreasing_by
  · have h₁ := length_of_readScalar? _hs
    have h₂ := length_of_skipSpace _h
    simp only [List.length_cons] at h₁
    omega
  · have h₁ := bound_of_nextItem _hn
    have h₂ := length_of_skipSpace _h
    simp only [Next.bound] at h₁
    omega
  · have h₁ := bound_of_nextItem _hn
    have h₂ := length_of_skipSpace _h
    simp only [Next.bound, if_true] at h₁
    omega
  · have h₁ := bound_of_nextMember _hn
    have h₂ := length_of_skipSpace _h
    simp only [Next.bound] at h₁
    omega
  · have h₁ := bound_of_nextMember _hn
    have h₂ := length_of_skipSpace _h
    simp only [Next.bound, Bool.false_eq_true, if_false] at h₁
    omega
  · have h₁ := length_of_readColon _hc
    have h₂ := length_of_readString _hk
    omega
  · exact bound_of_nextItem _hn
  · exact bound_of_nextItem _hn
  · exact bound_of_nextMember _hn
  · exact bound_of_nextMember _hn

/-- Reads one value off the front of a text. -/
def readValue (text : List Char) : Except Fault (Json × List Char) :=
  readFrom .value [] text

/-- Nothing but space may be left. -/
def finish {α : Type} (found : Except Fault (α × List Char)) : Except Fault α :=
  match found with
  | .error fault => .error fault
  | .ok (a, rest) =>
    match skipSpace rest with
    | [] => .ok a
    | c :: more => .error (.on .trailingCharacters (c :: more))

/-- The value that `text` is the JSON form of. -/
def parse (text : List Char) : Except Error Json :=
  (finish (readValue text)).mapError (Fault.error text)

end OpacityMigration.Json
