import ScriptFeatures.Text.Utf8

/-!
Text as a shell sees it: bytes, each held by the character of its number. What
a script prints need not be UTF-8; only paths are read that way.
-/

namespace ScriptFeatures.Shell

def ofBytes (bytes : ByteArray) : String :=
  String.ofList (bytes.toList.map fun b => Char.ofNat b.toNat)

def toBytes (s : String) : ByteArray := ⟨(s.toList.map fun c => c.toNat.toUInt8).toArray⟩

def ofPath (path : String) : String := ofBytes path.toUTF8

def toPath (s : String) : String := Text.Utf8.decodeLossy (toBytes s)

def nullPath : String := "/dev/null"

end ScriptFeatures.Shell
