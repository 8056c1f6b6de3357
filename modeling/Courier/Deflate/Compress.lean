import Courier.Deflate.Block
/-!
# Compression

Level zero stores the data in blocks as they are. Every other level searches for copies, the
harder the higher the level, and writes the tokens in blocks.
-/

namespace Courier.Deflate

def storedShare : Nat := 31745

def storedBlock (last : Bool) (content : Bytes) : Bytes :=
  (if last then 1 else 0) :: Bytes.littleEndian 2 content.length ++
    Bytes.littleEndian 2 (0xFFFF - content.length) ++ content

def deflateStored (data : Bytes) : Bytes :=
  if _h : data.length < storedShare then storedBlock true data
  else storedBlock false (data.take storedShare) ++ deflateStored (data.drop storedShare)
  termination_by data.length
  decreasing_by
    have : storedShare = 31745 := rfl
    simp only [List.length_drop]
    omega

def deflateTokens (level : Nat) (data : Bytes) : Bytes :=
  let content := data.toArray
  packBits (blocksBits content 0 (stretches (.ofLevel level) content)).flatten

/-- Compressed data of the given level. -/
def deflate (level : Nat) (data : Bytes) : Bytes :=
  if level = 0 then deflateStored data else deflateTokens level data

end Courier.Deflate
