import SequoiaOpenpgp.Packet.Core
import SequoiaOpenpgp.Packet.DerefLens
import SequoiaOpenpgp.Packet.BodyLength
import SequoiaOpenpgp.Packet.BodyLengthLaws
import SequoiaOpenpgp.Iter.PacketIter
import SequoiaOpenpgp.Iter.PacketPathIter
import SequoiaOpenpgp.Iter.NaivePaths
import SequoiaOpenpgp.Iter.AdvancedPaths
import SequoiaOpenpgp.Iter.SetBody
import SequoiaOpenpgp.Parse.PacketParserBuilder
import SequoiaOpenpgp.Iter.PrettyPrint
import SequoiaOpenpgp.Iter.StoredPath
import SequoiaOpenpgp.Iter.Subtree
