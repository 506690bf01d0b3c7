/-
# Text as bytes

A text is stored as its UTF-8 bytes.  Lengths of texts are counted in these bytes, and texts
are ordered by them.

* `Utf8.decode_encode`: the bytes of a text read back as that text;
* `Utf8.encode_of_decode`: bytes that read as a text are the bytes of that text, so a byte
  sequence has at most one reading.
-/
import RowStore.Encoding.Word

namespace RowStore
namespace Utf8

/-- The bytes of a text. -/
def encode (text : String) : Bytes := text.toByteArray.data.toList

/-- The text that the bytes spell; `none` if they are not well formed. -/
def decode? (bytes : Bytes) : Option String := String.fromUTF8? ⟨bytes.toArray⟩

/-- The number of bytes of a text. -/
def size (text : String) : Nat := text.utf8ByteSize

@[simp] theorem length_encode (text : String) : (encode text).length = size text := by
  simp [encode, size]

@[simp] theorem decode_encode (text : String) : decode? (encode text) = some text := by
  have h : (⟨(encode text).toArray⟩ : ByteArray) = text.toByteArray := by simp [encode]
  rw [decode?, h, String.fromUTF8?, dif_pos text.isValidUTF8]
  rfl

theorem encode_of_decode {bytes : Bytes} {text : String} (h : decode? bytes = some text) :
    encode text = bytes := by
  rw [decode?, String.fromUTF8?] at h
  split at h
  · simp only [Option.some.injEq] at h
    subst h
    simp [encode, String.fromUTF8]
  · simp at h

end Utf8
end RowStore
