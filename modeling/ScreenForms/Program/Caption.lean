/-!
# Hotkeys in captions

A hotkey is the first character of a caption that equals it up to ASCII case. Some toolkits take
its index; others take a caption in which an ampersand stands before it and every ampersand of the
text itself is doubled.
-/

namespace ScreenForms.Caption

/-- Whether two characters are equal up to ASCII case. -/
def sameKey (a b : Char) : Bool := a.toLower == b.toLower

/-- The character that a hotkey text names. -/
def keyOf? (hotkey : Option String) : Option Char := hotkey.bind fun h => h.toList.head?

/-- The index of the hotkey in a caption. -/
def hotkeyIndex? (text : String) (hotkey : Option String) : Option Nat :=
  (keyOf? hotkey).bind fun key => text.toList.findIdx? (sameKey key)

/-- A caption with its ampersands doubled. -/
def doubled (cs : List Char) : List Char :=
  cs.flatMap fun c => if c = '&' then ['&', '&'] else [c]

/-- Puts an ampersand before the first character that equals the key, if there is one. -/
def markFirst (key : Char) : List Char → List Char
  | [] => []
  | c :: cs => if sameKey key c then '&' :: c :: cs else c :: markFirst key cs

/-- A caption with an ampersand before its hotkey. -/
def mnemonic (text : String) (hotkey : Option String) : String :=
  let cs := doubled text.toList
  String.ofList (match keyOf? hotkey with
    | some key => markFirst key cs
    | none => cs)

end ScreenForms.Caption
