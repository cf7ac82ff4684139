import Pasl.Utils.Binary
import Pasl.Utils.Value
import Pasl.Utils.Walker
import Pasl.Utils.Simulation
import Pasl.Utils.Preorder
import Pasl.Utils.Bytes
import Pasl.Utils.Serialize
import Pasl.Utils.Deserialize
import Pasl.Utils.ReadBack
import Pasl.Safebox.Block
import Pasl.Safebox.BlockHash
import Pasl.Network.Connection
import Pasl.Network.GetBlocks
import Pasl.Network.Gossip
import Pasl.Network.Peer
import Pasl.Network.Events
import Pasl.Safebox.ChangeKey
