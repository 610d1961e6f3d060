import Metering.Digest.Sha256

/-!
Keyed digests.

A key is brought to the length of one block, by its digest if it is longer and by zeros at its
end. The tag is the digest of the key, masked one way, and of the digest of the key, masked
another way, and the message. Main statement: a tag has 32 bytes (`length_tag`).
-/
namespace Metering.Hmac

/-- A key at the length of one block. -/
def blockKey (key : Bytes) : Bytes :=
  let short := if key.length ≤ 64 then key else Sha256.digest key
  short ++ List.replicate (64 - short.length) 0

/-- The tag of a message under a key. -/
def tag (key message : Bytes) : Bytes :=
  let k := blockKey key
  Sha256.digest (k.map (· ^^^ 0x5c) ++ Sha256.digest (k.map (· ^^^ 0x36) ++ message))

theorem length_tag (key message : Bytes) : (tag key message).length = 32 :=
  Sha256.length_digest _

end Metering.Hmac
