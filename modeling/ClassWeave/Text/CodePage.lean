/-!
# Code page 437

The character set of names in archives that are not marked as UTF-8. Its lower half is ASCII.
-/

namespace ClassWeave

namespace CodePage

/-- The characters of the upper half, in order. -/
def upperHalf : Array Char :=
  ("ÇüéâäàåçêëèïîìÄÅÉæÆôöòûùÿÖÜ¢£¥₧ƒ"
    ++ "áíóúñÑªº¿⌐¬½¼¡«»░▒▓│┤╡╢╖╕╣║╗╝╜╛┐"
    ++ "└┴┬├─┼╞╟╚╔╩╦╠═╬╧╨╤╥╙╘╒╓╫╪┘┌█▄▌▐▀"
    ++ "αßΓπΣσµτΦΘΩδ∞φε∩≡±≥≤⌠⌡÷≈°∙·√ⁿ²■ ").toList.toArray

def charOf (byte : UInt8) : Char :=
  if byte < 128 then Char.ofNat byte.toNat else upperHalf.getD (byte.toNat - 128) ' '

def decode (bytes : List UInt8) : String := String.ofList (bytes.map charOf)

end CodePage

end ClassWeave
